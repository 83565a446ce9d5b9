/-!
# White Space

The characters with the Unicode property White_Space, and the trimming of
text by it. The table is the property's own: core's `Char.isWhitespace` knows
four of its characters.

## Main definitions

* `isBlank`: The property.
* `trimLeft`, `trimRight`, `trim`: Trimming a list of characters.
* `trimmed`: Trimming a string.

## Theorems

* `trim_trim`, `trimmed_trimmed`: A trimmed text has nothing left to trim.
-/

namespace Flowchart

namespace Text

/-- Whether a character has the property White_Space. -/
def isBlank (c : Char) : Bool :=
  let n := c.toNat
  (0x09 ≤ n && n ≤ 0x0D) || n == 0x20 || n == 0x85 || n == 0xA0 || n == 0x1680 ||
    (0x2000 ≤ n && n ≤ 0x200A) || n == 0x2028 || n == 0x2029 || n == 0x202F ||
    n == 0x205F || n == 0x3000

/-- The text from its first character that is not blank. -/
def trimLeft (cs : List Char) : List Char := cs.dropWhile isBlank

/-- The text up to its last character for which `p` fails. -/
def dropRightWhile (p : Char → Bool) (cs : List Char) : List Char :=
  (cs.reverse.dropWhile p).reverse

/-- The text up to its last character that is not blank. -/
def trimRight (cs : List Char) : List Char := dropRightWhile isBlank cs

/-- The text without the blanks around it. -/
def trim (cs : List Char) : List Char := trimRight (trimLeft cs)

/-- A string without the blanks around it. -/
def trimmed (s : String) : String := String.ofList (trim s.toList)

/-- The number of bytes that the characters take in UTF-8. -/
def byteLength : List Char → Nat
  | [] => 0
  | c :: cs => c.utf8Size + byteLength cs

theorem dropWhile_idem {α : Type} (p : α → Bool) (xs : List α) :
    (xs.dropWhile p).dropWhile p = xs.dropWhile p := by
  induction xs with
  | nil => rfl
  | cons x xs ih => cases h : p x <;> simp [h, ih]

-- A list that does not start with a dropped element has no such start either.
theorem dropWhile_eq_self_of_prefix {α : Type} {p : α → Bool} {xs ys : List α}
    (h : xs <+: ys) (hy : ys.dropWhile p = ys) : xs.dropWhile p = xs := by
  obtain ⟨zs, rfl⟩ := h
  cases xs with
  | nil => rfl
  | cons x xs =>
      have hx : p x = false := by
        cases hp : p x with
        | false => rfl
        | true =>
            have hlen := congrArg List.length hy
            have hle := (List.dropWhile_suffix p (l := xs ++ zs)).length_le
            simp [hp] at hlen hle
            omega
      simp [hx]

theorem trim_trim (cs : List Char) : trim (trim cs) = trim cs := by
  have hr : trimRight (trimLeft cs) <+: trimLeft cs := by
    have hs := List.reverse_prefix.2 (List.dropWhile_suffix isBlank (l := (trimLeft cs).reverse))
    simpa [trimRight, dropRightWhile] using hs
  have hl : trimLeft (trim cs) = trim cs :=
    dropWhile_eq_self_of_prefix hr (dropWhile_idem isBlank cs)
  rw [trim, hl]
  simp [trim, trimRight, dropRightWhile, dropWhile_idem]

theorem trimmed_trimmed (s : String) : trimmed (trimmed s) = trimmed s := by
  simp [trimmed, trim_trim]

end Text

end Flowchart
