import Flowchart.Proofs.Statement.Agreement
import Mathlib.Data.List.Perm.Basic

/-!
# The Order of Forms

The forms are tried in a fixed order, and the first that reads a line decides
what it says. The order is only one of speed. Whichever forms read a line, they
read the same statement from it, so a table with the same forms in another
order says the same about every line.

More is true. A statement knows which kind of form it came from, declarations
from edges and styles, and edges by their line. As all forms that read a line
read one statement, they are of one kind.

## Main definitions

* `Form.Kind`: What a form is a form of.
* `Form.kind`, `Statement.kind`: The kind of a form and of what it reads.

## Theorems

* `kind_of_read?`: A form reads statements of its own kind.
* `firstOf?_perm`: What a table says does not hang on its order.
* `order_immaterial`: Both, for all lines.
-/

namespace Flowchart

/-- What a form is a form of. Edges of different lines are of different
    kinds. -/
inductive Form.Kind where
  | declaration
  | edge (line : Line)
  | style
deriving DecidableEq, Repr

namespace Form

/-- The kind of a form. -/
def kind : Form → Kind
  | nodeDeclaration => .declaration
  | bracketedEdge | labelledTargetEdge | plainEdge | mixedEdge => .edge .arrow
  | dashedEdge => .edge .dashed
  | dottedLink => .edge .dotted
  | styleDirective => .style

end Form

namespace Statement

/-- The kind of form that a statement is read by. -/
def kind : Statement → Form.Kind
  | declare _ _ => .declaration
  | connect c => .edge c.line
  | restyle _ _ => .style

theorem kind_of_style? {cs : List Char} {s : Statement} (h : style? cs = some s) :
    s.kind = .style := by
  simp only [style?, Option.bind_eq_bind, Option.bind_eq_some_iff] at h
  rcases h with ⟨_, _, _, _, ⟨id, _⟩, _, body, _, hs⟩
  split at hs
  · exact absurd hs (by simp only [reduceCtorEq, not_false_eq_true])
  · rw [← Option.some.inj hs]
    rfl

theorem kind_of_arrow? {form : Form} {arrow : List Char} {line : Line}
    (h : form.arrow? = some (arrow, line)) : form.kind = .edge line := by
  cases form with
  | nodeDeclaration | styleDirective =>
      exact absurd h (by simp only [Form.arrow?, reduceCtorEq, not_false_eq_true])
  | bracketedEdge | labelledTargetEdge | plainEdge | mixedEdge | dashedEdge | dottedLink =>
      simp only [Form.arrow?, Option.some.injEq, Prod.mk.injEq] at h
      rw [← h.2]
      rfl

/-- A form reads statements of its own kind. -/
theorem kind_of_read? {form : Form} {cs : List Char} {s : Statement}
    (h : form.read? cs = some s) : s.kind = form.kind := by
  -- The arrow tells an edge, and without one there are two forms left.
  cases harrow : form.arrow? with
  | some found =>
      rcases found with ⟨arrow, line⟩
      rcases exists_edge?_of_read? harrow h with ⟨e, rest, _, _, rfl⟩
      rw [kind_of_arrow? harrow]
      rfl
  | none =>
      cases form with
      | nodeDeclaration =>
          rcases exists_of_declaration? h with ⟨id, _, b, _, _, _, _, rfl⟩
          rfl
      | styleDirective => exact kind_of_style? h
      | bracketedEdge | labelledTargetEdge | plainEdge | mixedEdge | dashedEdge | dottedLink =>
          exact absurd harrow (by simp only [Form.arrow?, reduceCtorEq, not_false_eq_true])

/-- Forms that read the same line are of the same kind. -/
theorem kind_unique {form form' : Form} {cs : List Char} {s s' : Statement}
    (h : form.read? cs = some s) (h' : form'.read? cs = some s') : form.kind = form'.kind := by
  rw [← kind_of_read? h, ← kind_of_read? h', read?_unique h h']

/-- What a table says does not hang on its order. -/
theorem firstOf?_perm {forms forms' : List Form} (h : forms.Perm forms') (cs : List Char) :
    Form.firstOf? forms cs = Form.firstOf? forms' cs := by
  ext s
  rw [firstOf?_eq_some_iff, firstOf?_eq_some_iff]
  exact exists_congr fun form => and_congr_left' h.mem_iff

/-- The order of the forms does not decide what a line says. All forms that read
    a line read the same from it and are of one kind, so a line says the same to
    every table that holds the forms in some order. -/
theorem order_immaterial :
    (∀ (cs : List Char) (form form' : Form) (s s' : Statement), form.read? cs = some s →
      form'.read? cs = some s' → s = s' ∧ form.kind = form'.kind) ∧
      ∀ (forms : List Form) (cs : List Char), forms.Perm Form.all →
        Form.firstOf? forms cs = (ofLine? cs).map Prod.snd := by
  refine ⟨fun cs form form' s s' h h' => ⟨read?_unique h h', kind_unique h h'⟩, ?_⟩
  intro forms cs h
  rw [firstOf?_perm h, firstOf?_all]

/-- A line that two forms read, each with its own grammar, and the table back to
    front. -/
theorem order_immaterial_labelled :
    let cs : List Char := "A -->|x| B[y]".toList
    let s : Statement := .connect ⟨⟨"A", none⟩, ⟨"B", some ⟨.rectangle, "y"⟩⟩, .arrow, some "x"⟩
    (Form.labelledTargetEdge.read? cs = some s ∧ Form.mixedEdge.read? cs = some s ∧
      Form.labelledTargetEdge.kind = Form.mixedEdge.kind) ∧
      Form.all.reverse.Perm Form.all ∧
        Form.firstOf? Form.all.reverse cs = (ofLine? cs).map Prod.snd := by
  intro cs s
  have hlabelled : Form.labelledTargetEdge.read? cs = some s := by decide +kernel
  have hmixed : Form.mixedEdge.read? cs = some s := by decide +kernel
  have hperm : Form.all.reverse.Perm Form.all := List.reverse_perm Form.all
  exact ⟨⟨hlabelled, hmixed, (order_immaterial.1 cs _ _ s s hlabelled hmixed).2⟩, hperm,
    order_immaterial.2 _ cs hperm⟩

end Statement

end Flowchart
