import Flowchart.Text.Blank
import Mathlib.Data.List.TakeWhile

/-!
# Runs of Characters

A reader that takes all characters of one kind stops where the kind ends, so a
run is read back exactly if what follows it starts with something else. Digits,
ids and blanks are all read this way, in lines as in stored drawings.

Trimming is the same from both ends. What it removes may therefore be put back
in any amount, which is how labels survive the blanks that are written around
them.

## Theorems

* `takeWhile_append_stop`, `dropWhile_append_stop`: A run ends where its kind
  ends.
* `head?_dropWhile_eq_false`: What follows a run is of another kind.
* `trim_append_blank`, `trim_blank_append`: Blanks at the ends do not count.
* `exists_dropRightWhile`: What is dropped from the end is of one kind.
* `trim_isInfix`, `mem_trim`: Trimming only takes blanks, and from the ends.
* `trim_append_cons`: A text with no blanks around it stays before another.
-/

namespace Flowchart

namespace Text

variable {α : Type} {p : α → Bool} {xs ys : List α}

theorem takeWhile_append_stop (hrun : ∀ x ∈ xs, p x = true)
    (hstop : ∀ y, ys.head? = some y → p y = false) : (xs ++ ys).takeWhile p = xs := by
  rw [List.takeWhile_append_of_pos hrun]
  cases ys with
  | nil => simp only [List.takeWhile_nil, List.append_nil]
  | cons y ys => simp only [List.takeWhile_cons, hstop y rfl, Bool.false_eq_true, if_false,
      List.append_nil]

theorem dropWhile_of_head? (hstop : ∀ x, xs.head? = some x → p x = false) :
    xs.dropWhile p = xs := by
  cases xs with
  | nil => rfl
  | cons x xs => simp only [List.dropWhile_cons, hstop x rfl, Bool.false_eq_true, if_false]

theorem dropWhile_append_stop (hrun : ∀ x ∈ xs, p x = true)
    (hstop : ∀ y, ys.head? = some y → p y = false) : (xs ++ ys).dropWhile p = ys := by
  rw [List.dropWhile_append_of_pos hrun, dropWhile_of_head? hstop]

theorem head?_dropWhile_eq_false {y : α} (h : (xs.dropWhile p).head? = some y) : p y = false := by
  have hnot := List.head?_dropWhile_not p xs
  rw [h] at hnot
  exact hnot

/-! ## Trimming -/

theorem trimRight_append_blank (cs : List Char) {post : List Char}
    (h : ∀ c ∈ post, isBlank c = true) : trimRight (cs ++ post) = trimRight cs := by
  have hrev : ∀ c ∈ post.reverse, isBlank c = true := fun c hc => h c (List.mem_reverse.mp hc)
  rw [trimRight, trimRight, dropRightWhile, dropRightWhile, List.reverse_append,
    List.dropWhile_append_of_pos hrev]

theorem trim_append_blank (cs : List Char) {post : List Char}
    (h : ∀ c ∈ post, isBlank c = true) : trim (cs ++ post) = trim cs := by
  unfold trim trimLeft
  rw [List.dropWhile_append]
  split
  · -- Nothing but blanks on either side.
    rename_i hempty
    have hpost : post.dropWhile isBlank = [] := List.dropWhile_eq_nil_iff.mpr h
    rw [hpost, List.isEmpty_iff.mp hempty]
  · exact trimRight_append_blank _ h

theorem trim_blank_append (cs : List Char) {pre : List Char}
    (h : ∀ c ∈ pre, isBlank c = true) : trim (pre ++ cs) = trim cs := by
  unfold trim trimLeft
  rw [List.dropWhile_append_of_pos h]

/-- What is dropped from the end of a text is all of one kind. -/
theorem exists_dropRightWhile (p : Char → Bool) (cs : List Char) :
    ∃ post, cs = dropRightWhile p cs ++ post ∧ ∀ c ∈ post, p c = true := by
  refine ⟨(cs.reverse.takeWhile p).reverse, ?_, fun c hc => ?_⟩
  · rw [dropRightWhile, ← List.reverse_append, List.takeWhile_append_dropWhile,
      List.reverse_reverse]
  · exact List.mem_takeWhile_imp (List.mem_reverse.mp hc)

theorem trimRight_isPrefix (cs : List Char) : trimRight cs <+: cs := by
  rcases exists_dropRightWhile isBlank cs with ⟨post, hcs, _⟩
  exact ⟨post, hcs.symm⟩

theorem trim_trimRight (cs : List Char) : trim (trimRight cs) = trim cs := by
  rcases exists_dropRightWhile isBlank cs with ⟨post, hcs, hblank⟩
  have happend := trim_append_blank (trimRight cs) hblank
  rw [trimRight, ← hcs] at happend
  exact happend.symm

/-- Trimming only takes from the ends. -/
theorem trim_isInfix (cs : List Char) : trim cs <:+: cs := by
  have hleft : trimLeft cs <:+ cs := List.dropWhile_suffix isBlank
  exact (trimRight_isPrefix (trimLeft cs)).isInfix.trans hleft.isInfix

/-- Trimming only takes blanks. -/
theorem mem_trim {cs : List Char} {c : Char} (h : c ∈ cs) (hc : isBlank c = false) :
    c ∈ trim cs := by
  have hleft : c ∈ trimLeft cs := by
    rw [← List.takeWhile_append_dropWhile (p := isBlank) (l := cs)] at h
    rcases List.mem_append.mp h with h | h
    · rw [List.mem_takeWhile_imp h] at hc
      cases hc
    · exact h
  rcases exists_dropRightWhile isBlank (trimLeft cs) with ⟨post, hcs, hblank⟩
  rw [hcs] at hleft
  rcases List.mem_append.mp hleft with h | h
  · exact h
  · rw [hblank c h] at hc
    cases hc

/-- A text that neither starts nor ends with a blank stays, whatever is put behind it. -/
theorem trim_append_cons {pre : List Char} {c : Char} (text : List Char)
    (hhead : ∀ x, pre.head? = some x → isBlank x = false) (hc : isBlank c = false) :
    trim (pre ++ c :: text) = pre ++ c :: trimRight text := by
  have hleft : trimLeft (pre ++ c :: text) = pre ++ c :: text := by
    refine dropWhile_of_head? ?_
    cases pre with
    | nil => exact fun x hx => Option.some.inj hx ▸ hc
    | cons x pre => exact hhead
  -- From the right the blanks end at the character in the middle at the latest.
  have hstop : (c :: pre.reverse).dropWhile isBlank = c :: pre.reverse :=
    dropWhile_of_head? fun x hx => Option.some.inj hx ▸ hc
  rw [trim, hleft, trimRight, trimRight, dropRightWhile, dropRightWhile, List.reverse_append,
    List.reverse_cons, List.append_assoc, List.dropWhile_append, List.singleton_append, hstop]
  split
  · rename_i hempty
    rw [List.isEmpty_iff.mp hempty, List.reverse_cons, List.reverse_reverse, List.reverse_nil]
  · rw [List.reverse_append, List.reverse_cons, List.reverse_reverse, List.append_assoc,
      List.singleton_append]

end Text

end Flowchart
