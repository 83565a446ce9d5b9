import Flowchart.Statement.Form
import Mathlib.Data.List.TakeWhile

/-!
# Labels of Brackets

A bracket is read in one place, whichever form reads the line around it, and
its label is trimmed there. So every label in every statement is trimmed, and
the question whether a label is blank is the question whether it is empty.

## Main definitions

* `Bracket.Tidy`: The label has no blanks around it.
* `Statement.Tidy`: Every bracket of the statement is tidy.

## Theorems

* `label_eq_empty_iff`: A tidy label is empty exactly if it is blank.
* `tidy_of_bracket?`: A bracket that was read is tidy.
* `tidy_of_ofLine?`: A statement that was read is tidy.
-/

namespace Flowchart

/-- The label of the bracket has no blanks around it. -/
def Bracket.Tidy (b : Bracket) : Prop := Text.trimmed b.label = b.label

theorem Text.trim_eq_nil_of_all {cs : List Char} (h : cs.all isBlank = true) : trim cs = [] := by
  have hleft : trimLeft cs = [] := by
    rw [trimLeft, List.dropWhile_eq_nil_iff]
    exact List.all_eq_true.mp h
  rw [trim, hleft]
  rfl

theorem Bracket.Tidy.label_eq_empty_iff {b : Bracket} (h : b.Tidy) :
    b.label = "" ↔ b.label.toList.all Text.isBlank = true := by
  constructor
  · intro hempty
    rw [hempty]
    rfl
  · intro hblank
    rw [← h, Text.trimmed, Text.trim_eq_nil_of_all hblank]

namespace Statement

/-- Every bracket of the statement is tidy. -/
def Tidy : Statement → Prop
  | .declare _ bracket => bracket.Tidy
  | .connect c =>
      (∀ b, c.source.bracket = some b → b.Tidy) ∧ ∀ b, c.target.bracket = some b → b.Tidy
  | .restyle _ _ => True

/-- Each of the four brackets trims its label, so it does not matter which of
    them it was. -/
theorem tidy_of_bracket? {cs rest : List Char} {b : Bracket} (h : bracket? cs = some (b, rest)) :
    b.Tidy := by
  unfold bracket? at h
  rcases List.exists_of_findSome?_eq_some h with ⟨⟨opening, closing, shape⟩, _, hread⟩
  simp only [Option.bind_eq_bind, Option.bind_eq_some_iff, Option.pure_def, Option.some.injEq,
    Prod.mk.injEq] at hread
  rcases hread with ⟨_, _, ⟨label, _⟩, _, rfl, _⟩
  rw [Bracket.Tidy, Text.trimmed, String.toList_ofList, Text.trim_trim]

theorem tidy_of_endpoint? {cs rest : List Char} {e : Endpoint}
    (h : endpoint? cs = some (e, rest)) : ∀ b, e.bracket = some b → b.Tidy := by
  unfold endpoint? at h
  simp only [Option.bind_eq_bind, Option.bind_eq_some_iff] at h
  rcases h with ⟨⟨id, cs'⟩, _, hread⟩
  intro b hb
  cases hbracket : bracket? cs' with
  | none =>
      -- A bare id has no bracket to be tidy.
      rw [hbracket] at hread
      rw [← (Prod.mk.inj (Option.some.inj hread)).1] at hb
      exact absurd hb (by simp only [reduceCtorEq, not_false_eq_true])
  | some found =>
      rw [hbracket] at hread
      rw [← (Prod.mk.inj (Option.some.inj hread)).1] at hb
      rw [← Option.some.inj hb]
      exact tidy_of_bracket? hbracket

theorem tidy_of_edge? {arrow cs rest : List Char} {e : EdgeText}
    (h : edge? arrow cs = some (e, rest)) :
    (∀ b, e.source.bracket = some b → b.Tidy) ∧ ∀ b, e.target.bracket = some b → b.Tidy := by
  unfold edge? at h
  simp only [Option.bind_eq_bind, Option.bind_eq_some_iff, Option.pure_def, Option.some.injEq,
    Prod.mk.injEq] at h
  rcases h with ⟨⟨source, _⟩, hsource, _, _, ⟨target, _⟩, htarget, rfl, _⟩
  exact ⟨tidy_of_endpoint? hsource, tidy_of_endpoint? htarget⟩

theorem tidy_of_labelledEdge? {arrow cs rest : List Char} {e : EdgeText}
    (h : labelledEdge? arrow cs = some (e, rest)) :
    (∀ b, e.source.bracket = some b → b.Tidy) ∧ ∀ b, e.target.bracket = some b → b.Tidy := by
  unfold labelledEdge? at h
  simp only [Option.bind_eq_bind, Option.bind_eq_some_iff, Option.pure_def, Option.some.injEq,
    Prod.mk.injEq] at h
  rcases h with ⟨⟨source, _⟩, hsource, _, _, _, _, ⟨target, _⟩, htarget, rfl, _⟩
  exact ⟨tidy_of_endpoint? hsource, tidy_of_endpoint? htarget⟩

theorem eq_some_of_whole {α : Type} {read : Option (α × List Char)} {a : α}
    (h : whole read = some a) : ∃ rest, read = some (a, rest) := by
  rcases read with _ | ⟨b, rest⟩
  · exact absurd h (by simp only [whole, reduceCtorEq, not_false_eq_true])
  · simp only [whole] at h
    split at h
    · rw [Option.some.inj h]
      exact ⟨rest, rfl⟩
    · exact absurd h (by simp only [reduceCtorEq, not_false_eq_true])

theorem tidy_of_form_edge? {form : Form} {line : Line} {found : Option (EdgeText × List Char)}
    {s : Statement} (hends : ∀ e rest, found = some (e, rest) →
      (∀ b, e.source.bracket = some b → b.Tidy) ∧ ∀ b, e.target.bracket = some b → b.Tidy)
    (h : form.edge? line found = some s) : s.Tidy := by
  unfold Form.edge? at h
  simp only [Option.bind_eq_bind, Option.bind_eq_some_iff] at h
  rcases h with ⟨e, hwhole, hs⟩
  rcases eq_some_of_whole hwhole with ⟨rest, hedge⟩
  split at hs
  · rw [← Option.some.inj hs]
    exact hends e rest hedge
  · exact absurd hs (by simp only [reduceCtorEq, not_false_eq_true])

theorem tidy_of_declaration? {cs : List Char} {s : Statement}
    (h : Form.declaration? cs = some s) : s.Tidy := by
  unfold Form.declaration? at h
  simp only [Option.bind_eq_bind, Option.bind_eq_some_iff, Option.pure_def,
    Option.some.injEq] at h
  rcases h with ⟨⟨id, bracket⟩, hwhole, rfl⟩
  rcases eq_some_of_whole hwhole with ⟨rest, hread⟩
  simp only [Option.bind_eq_some_iff, Option.some.injEq, Prod.mk.injEq] at hread
  rcases hread with ⟨_, _, ⟨b, _⟩, hb, ⟨_, rfl⟩, _⟩
  exact tidy_of_bracket? hb

/-- A style holds no bracket, and the other forms read theirs as declarations
    and edges do. -/
theorem tidy_of_read? {form : Form} {cs : List Char} {s : Statement}
    (h : form.read? cs = some s) : s.Tidy := by
  cases form with
  | nodeDeclaration => exact tidy_of_declaration? h
  | styleDirective =>
      simp only [Form.read?, style?, Option.bind_eq_bind, Option.bind_eq_some_iff] at h
      rcases h with ⟨_, _, _, _, ⟨id, _⟩, _, body, _, hs⟩
      -- If the body says anything at all, it says nothing about labels.
      split at hs
      · exact absurd hs (by simp only [reduceCtorEq, not_false_eq_true])
      · rw [← Option.some.inj hs]
        exact trivial
  | bracketedEdge => exact tidy_of_form_edge? (fun _ _ => tidy_of_edge?) h
  | labelledTargetEdge => exact tidy_of_form_edge? (fun _ _ => tidy_of_labelledEdge?) h
  | plainEdge => exact tidy_of_form_edge? (fun _ _ => tidy_of_edge?) h
  | mixedEdge => exact tidy_of_form_edge? (fun _ _ => tidy_of_edge?) h
  | dashedEdge => exact tidy_of_form_edge? (fun _ _ => tidy_of_edge?) h
  | dottedLink => exact tidy_of_form_edge? (fun _ _ => tidy_of_edge?) h

theorem tidy_of_ofLine? {cs : List Char} {form : Form} {s : Statement}
    (h : ofLine? cs = some (form, s)) : s.Tidy := by
  unfold ofLine? at h
  rcases List.exists_of_findSome?_eq_some h with ⟨form', _, hread⟩
  simp only [Option.map_eq_some_iff, Prod.mk.injEq] at hread
  rcases hread with ⟨s', hs', _, rfl⟩
  exact tidy_of_read? hs'

end Statement

end Flowchart
