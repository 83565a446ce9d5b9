import Flowchart.Proofs.Json.Roundtrip

/-!
# Values Read Back from One Line

A value that is written on one line without blanks is read back as well. The
reader drops blanks before it sees them, so all that changes is how the text is
cut: into the same tokens, with nothing between them. What keeps a number from
running on is then the mark that follows it and no longer a new line.

## Theorems

* `lexes_compactChars`: The characters of a value are cut into its tokens.
* `parse?_compact`: A value is read back from its text on one line.
-/

namespace Flowchart

namespace Json

theorem endsNumber_closeArray (rest : List Char) : EndsNumber (']' :: rest) := by
  intro c hc
  rw [← Option.some.inj hc]
  decide

theorem endsNumber_closeObject (rest : List Char) : EndsNumber ('\x7d' :: rest) := by
  intro c hc
  rw [← Option.some.inj hc]
  decide

/-- The characters of a value are cut into the tokens of the value, if what
    follows does not continue a number. -/
def CutsCompactlyInto (v : Json) : Prop :=
  ∀ (rest : List Char) (ts : List Token), EndsNumber rest → Lexes rest ts →
    Lexes (compactChars v ++ rest) (tokens v ++ ts)

theorem lexes_compactItems {items : List Json} (hitems : ∀ item ∈ items, CutsCompactlyInto item)
    {rest : List Char} {ts : List Token} (hends : EndsNumber rest) (h : Lexes rest ts) :
    Lexes (compactItems items ++ rest) (laterItems items ++ ts) ∧
      EndsNumber (compactItems items ++ rest) := by
  induction items with
  | nil => exact ⟨h, hends⟩
  | cons item items ih =>
      rcases ih (fun x hx => hitems x (List.mem_cons_of_mem item hx)) with ⟨hlater, hlaterEnds⟩
      have hitem := hitems item List.mem_cons_self _ _ hlaterEnds hlater
      rw [compactItems, laterItems, List.cons_append, List.cons_append, List.append_assoc,
        List.append_assoc]
      exact ⟨.mark (by decide) (fun _ => rfl) hitem, endsNumber_comma _⟩

theorem lexes_compactMember {m : Option String × Json} (hkey : m.1.isSome = true)
    (hvalue : CutsCompactlyInto m.2) {rest : List Char} {ts : List Token}
    (hends : EndsNumber rest) (h : Lexes rest ts) :
    Lexes (compactMember m ++ rest) (memberTokens m ++ ts) := by
  rcases m with ⟨key, value⟩
  rcases Option.isSome_iff_exists.mp hkey with ⟨k, rfl⟩
  have hv := hvalue rest ts hends h
  rw [compactMember, memberTokens, List.append_assoc, List.cons_append]
  exact .quote k (.mark (by decide) (fun _ => rfl) hv)

theorem lexes_compactMembers {ms : List (Option String × Json)}
    (hkeys : ∀ m ∈ ms, m.1.isSome = true) (hvalues : ∀ m ∈ ms, CutsCompactlyInto m.2)
    {rest : List Char} {ts : List Token} (hends : EndsNumber rest) (h : Lexes rest ts) :
    Lexes (compactMembers ms ++ rest) (laterMembers ms ++ ts) ∧
      EndsNumber (compactMembers ms ++ rest) := by
  induction ms with
  | nil => exact ⟨h, hends⟩
  | cons m ms ih =>
      rcases ih (fun x hx => hkeys x (List.mem_cons_of_mem m hx))
        (fun x hx => hvalues x (List.mem_cons_of_mem m hx)) with ⟨hlater, hlaterEnds⟩
      have hm := lexes_compactMember (hkeys m List.mem_cons_self)
        (hvalues m List.mem_cons_self) hlaterEnds hlater
      rw [compactMembers, laterMembers, List.cons_append, List.cons_append, List.append_assoc,
        List.append_assoc]
      exact ⟨.mark (by decide) (fun _ => rfl) hm, endsNumber_comma _⟩

/-- The characters of a value are cut into the tokens of the value. -/
theorem lexes_compactChars {v : Json} (hv : v.Legible) : CutsCompactlyInto v := by
  induction hv with
  | null =>
      intro rest ts _ h
      exact @Lexes.token 'n' "ull".toList rest .null ts (by decide) rfl h
  | bool b =>
      intro rest ts _ h
      cases b with
      | true => exact @Lexes.token 't' "rue".toList rest (.bool true) ts (by decide) rfl h
      | false => exact @Lexes.token 'f' "alse".toList rest (.bool false) ts (by decide) rfl h
  | number hn =>
      intro rest ts hends h
      rw [compactChars, tokens]
      exact .number hn hends h
  | string s =>
      intro rest ts _ h
      rw [compactChars, tokens]
      exact .quote s h
  | @array items _ ih =>
      intro rest ts _ h
      -- The text is followed from its end, as the token behind a number has to end it.
      have hclose : Lexes (']' :: rest) (.closeArray :: ts) := .mark (by decide) (fun _ => rfl) h
      cases items with
      | nil =>
          rw [compactChars, tokens]
          exact .mark (by decide) (fun _ => rfl) hclose
      | cons item items =>
          rcases lexes_compactItems (fun x hx => ih x (List.mem_cons_of_mem item hx))
            (endsNumber_closeArray rest) hclose with ⟨hlater, hends⟩
          have hitem := ih item List.mem_cons_self _ _ hends hlater
          have hall := Lexes.mark (c := '[') (t := .openArray) (by decide) (fun _ => rfl) hitem
          rw [compactChars, tokens]
          simp only [List.cons_append, List.append_assoc, List.nil_append]
          exact hall
  | @object members hkeys _ ih =>
      intro rest ts _ h
      have hclose : Lexes ('\x7d' :: rest) (.closeObject :: ts) :=
        .mark (by decide) (fun _ => rfl) h
      cases members with
      | nil =>
          rw [compactChars, tokens]
          exact .mark (by decide) (fun _ => rfl) hclose
      | cons m ms =>
          rcases lexes_compactMembers (fun x hx => hkeys x (List.mem_cons_of_mem m hx))
            (fun x hx => ih x (List.mem_cons_of_mem m hx)) (endsNumber_closeObject rest) hclose with
            ⟨hlater, hends⟩
          have hm := lexes_compactMember (hkeys m List.mem_cons_self) (ih m List.mem_cons_self)
            hends hlater
          have hall := Lexes.mark (c := '\x7b') (t := .openObject) (by decide) (fun _ => rfl) hm
          rw [compactChars, tokens]
          simp only [List.cons_append, List.append_assoc, List.nil_append]
          exact hall

/-- A value is read back from its text on one line. -/
theorem parse?_compact {v : Json} (hv : v.Legible) : parse? v.compact = some v := by
  have h := lexes_compactChars hv [] [] endsNumber_nil .nil
  rw [List.append_nil, List.append_nil] at h
  exact parse?_of_lexes hv h

end Json

end Flowchart
