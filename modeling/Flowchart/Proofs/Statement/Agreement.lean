import Flowchart.Proofs.Statement.Token

/-!
# Forms Agree

The forms of statements are tried in a fixed order, and yet the order does not
matter: all forms that read a line read the same statement from it. So it is
enough to know one form that reads a line, without a word about the ones before
it.

The forms fall into classes. Four of them read solid edges. Three of these
differ only in the edges that they take; the fourth has a grammar of its own,
which agrees with the common one on whole lines. Between two classes the text
itself decides.
Every statement starts with an id, and what follows the id and its bracket
tells declarations, styles and edges apart. Of two arrows neither starts with
the other, with one exception: the dashed arrow starts like the dotted line.
What is left of it after that is its head, and no edge goes on with one.

## Main definitions

* `Form.arrow?`: The arrow and the line of a form that reads edges.
* `Form.firstOf?`: What the first of some forms reads.
* `Statement.Starts`: How the text of a line starts, class by class.

## Theorems

* `exists_endpoint?_of_edge?`: How every text of an edge starts.
* `edge?_of_labelledEdge?`: The two grammars of edges agree.
* `starts_of_read?`: A line that a form reads starts as its class does.
* `arrow_unique`: A line goes on with one arrow only.
* `read?_unique`: All forms that read a line agree.
* `ofLine?_eq_some_iff`: A line says what some form reads from it.
-/

namespace Flowchart

/-- The arrow and the line of a form that reads edges. -/
def Form.arrow? : Form → Option (List Char × Line)
  | nodeDeclaration | styleDirective => none
  | bracketedEdge | labelledTargetEdge | plainEdge | mixedEdge => some (solidArrow, .arrow)
  | dashedEdge => some (dashedArrow, .dashed)
  | dottedLink => some (dottedLine, .dotted)

/-- What the first of some forms reads from a line. -/
def Form.firstOf? (forms : List Form) (cs : List Char) : Option Statement :=
  forms.findSome? fun form => form.read? cs

namespace Statement

open Source (skipGap isGap)

/-! ## How an edge starts -/

theorem whole_eq_some_iff {α : Type} (read : Option (α × List Char)) (a : α) :
    whole read = some a ↔ ∃ rest, read = some (a, rest) ∧ ∀ c ∈ rest, Text.isBlank c = true := by
  rcases read with _ | ⟨b, rest⟩
  · simp only [whole, reduceCtorEq, false_and, exists_false]
  · simp only [whole, Option.some.injEq, Prod.mk.injEq, List.all_eq_true,
      Option.ite_none_right_eq_some]
    constructor
    · rintro ⟨hblank, rfl⟩
      exact ⟨rest, ⟨rfl, rfl⟩, hblank⟩
    · rintro ⟨_, ⟨rfl, rfl⟩, hblank⟩
      exact ⟨hblank, rfl⟩

theorem skipGap_of_head? {cs : List Char} (h : ∀ c, cs.head? = some c → isGap c = false) :
    skipGap cs = cs :=
  Text.dropWhile_of_head? h

/-- An edge starts with its source, perhaps a gap, and its arrow. What follows
    the arrow is never the head of another one. -/
theorem exists_endpoint?_of_edge? {arrow cs rest : List Char} {e : EdgeText}
    (h : edge? arrow cs = some (e, rest)) :
    ∃ tail after, endpoint? cs = some (e.source, tail) ∧ skipGap tail = arrow ++ after ∧
      after.head? ≠ some '>' := by
  unfold edge? at h
  simp only [Option.bind_eq_bind, Option.bind_eq_some_iff, Option.pure_def, Option.some.injEq,
    Prod.mk.injEq] at h
  rcases h with ⟨⟨source, tail⟩, hsource, after, harrow, ⟨target, _⟩, htarget, rfl, _⟩
  refine ⟨tail, after, hsource, (token?_eq_some_iff _ _ _).mp harrow, ?_⟩
  intro hhead
  cases after with
  | nil => exact absurd hhead (by simp only [List.head?_nil, reduceCtorEq, not_false_eq_true])
  | cons c after =>
      rw [List.head?_cons, Option.some.injEq] at hhead
      subst hhead
      -- The head is neither a gap, nor a pipe, nor the start of an id.
      have hgap : skipGap ('>' :: after) = '>' :: after := rfl
      have hpipe : pipe? ('>' :: after) = none := rfl
      have hid : id? ('>' :: after) = none := rfl
      simp only [hgap, hpipe, endpoint?, hid, Option.bind_eq_bind, Option.bind_none,
        reduceCtorEq] at htarget

/-! ## The labelled grammar -/

/-- On a whole line the grammar of labelled edges agrees with the one of all
    edges. It reads the same labels and ends in the same places, and only blanks
    are left, in which the other grammar finds no second label. -/
theorem edge?_of_labelledEdge? {arrow cs rest : List Char} {e : EdgeText}
    (h : labelledEdge? arrow cs = some (e, rest)) (hblank : ∀ c ∈ rest, Text.isBlank c = true) :
    edge? arrow cs = some (e, rest) := by
  unfold labelledEdge? at h
  simp only [Option.bind_eq_bind, Option.bind_eq_some_iff, Option.pure_def, Option.some.injEq,
    Prod.mk.injEq] at h
  rcases h with ⟨⟨source, tail⟩, hsource, after, harrow, ⟨early, behind⟩, hearly,
    ⟨target, rest'⟩, htarget, rfl, rfl⟩
  -- A second label would start with a pipe, which is no blank.
  have hlate : pipe? (skipGap rest') = none := by
    rw [pipe?, Option.bind_eq_bind, Option.bind_eq_none_iff]
    intro more htoken
    rw [token?_eq_some_iff] at htoken
    have hmem : '|' ∈ skipGap rest' := by
      rw [htoken]
      exact List.mem_cons_self
    exact absurd (hblank '|' (List.dropWhile_subset isGap hmem)) (by decide)
  simp only [edge?, hsource, harrow, hearly, htarget, hlate, Option.bind_eq_bind, Option.bind_some,
    Option.pure_def]

/-! ## Three classes -/

theorem exists_of_declaration? {cs : List Char} {s : Statement}
    (h : Form.declaration? cs = some s) :
    ∃ id tail bracket rest, id? cs = some (id, tail) ∧ bracket? tail = some (bracket, rest) ∧
      (∀ c ∈ rest, Text.isBlank c = true) ∧ s = .declare id bracket := by
  unfold Form.declaration? at h
  simp only [Option.bind_eq_bind, Option.bind_eq_some_iff, Option.pure_def, Option.some.injEq,
    Prod.exists] at h
  rcases h with ⟨id, bracket, hwhole, rfl⟩
  rcases (whole_eq_some_iff _ _).mp hwhole with ⟨rest, hread, hblank⟩
  simp only [Option.bind_eq_some_iff, Option.some.injEq, Prod.mk.injEq, Prod.exists] at hread
  rcases hread with ⟨_, tail, hid, _, _, hbracket, ⟨rfl, rfl⟩, rfl⟩
  exact ⟨_, tail, _, _, hid, hbracket, hblank, rfl⟩

theorem exists_of_form_edge? {form : Form} {line : Line} {found : Option (EdgeText × List Char)}
    {s : Statement} (h : form.edge? line found = some s) :
    ∃ e rest, found = some (e, rest) ∧ (∀ c ∈ rest, Text.isBlank c = true) ∧
      s = .connect ⟨e.source, e.target, line, e.label⟩ := by
  unfold Form.edge? at h
  simp only [Option.bind_eq_bind, Option.bind_eq_some_iff, Option.ite_none_right_eq_some,
    Option.pure_def, Option.some.injEq] at h
  rcases h with ⟨e, hwhole, _, rfl⟩
  rcases (whole_eq_some_iff _ _).mp hwhole with ⟨rest, hfound, hblank⟩
  exact ⟨e, rest, hfound, hblank, rfl⟩

/-- A form that reads edges reads one of the common grammar, also if it has a
    grammar of its own. -/
theorem exists_edge?_of_read? {form : Form} {arrow cs : List Char} {line : Line} {s : Statement}
    (harrow : form.arrow? = some (arrow, line)) (h : form.read? cs = some s) :
    ∃ e rest, edge? arrow cs = some (e, rest) ∧ (∀ c ∈ rest, Text.isBlank c = true) ∧
      s = .connect ⟨e.source, e.target, line, e.label⟩ := by
  cases form <;>
    simp only [Form.arrow?, Option.some.injEq, Prod.mk.injEq, reduceCtorEq] at harrow <;>
    rcases harrow with ⟨rfl, rfl⟩ <;>
    rcases exists_of_form_edge? h with ⟨e, rest, hfound, hblank, hs⟩
  case labelledTargetEdge =>
    exact ⟨e, rest, edge?_of_labelledEdge? hfound hblank, hblank, hs⟩
  all_goals exact ⟨e, rest, hfound, hblank, hs⟩

/-- A style starts with its keyword as an id, and the gap after it keeps it
    from being an endpoint with a bracket or the source of an edge. -/
theorem exists_of_style? {cs : List Char} {s : Statement} (h : style? cs = some s) :
    ∃ tail, id? cs = some ("style", tail) ∧ bracket? tail = none ∧
      ∃ c, (skipGap tail).head? = some c ∧ isIdChar c = true := by
  unfold style? at h
  simp only [Option.bind_eq_bind, Option.bind_eq_some_iff, Prod.exists] at h
  rcases h with ⟨tail, hword, after, hgap, id, rest, hid, _⟩
  rw [token?_eq_some_iff] at hword
  unfold gap? at hgap
  dsimp only at hgap
  split at hgap
  · rename_i hshort
    rw [Option.some.injEq] at hgap
    -- The text behind the keyword starts with a gap.
    have hhead : ∀ c, tail.head? = some c → isGap c = true := by
      intro c hc
      cases hcg : isGap c with
      | true => rfl
      | false =>
          have hskip : skipGap tail = tail := by
            refine skipGap_of_head? fun d hd => ?_
            rw [← Option.some.inj (hc.symm.trans hd), hcg]
          rw [hskip] at hshort
          exact absurd hshort (Nat.lt_irrefl _)
    have hgaps : ∀ c, isGap c = true → isIdChar c = false ∧ c ∉ bracketHeads := by
      intro c hc
      rcases (isGap_iff c).mp hc with rfl | rfl <;> decide
    refine ⟨tail, ?_, bracket?_eq_none fun c hc => (hgaps c (hhead c hc)).2, ?_⟩
    · -- The gap ends the keyword, and behind it an id starts.
      rw [id?_eq_some_iff]
      refine ⟨hword, by decide, fun c hc => (hgaps c (hhead c hc)).1⟩
    · rcases (id?_eq_some_iff after rest id).mp hid with ⟨hafter, ⟨hne, hchars⟩, _⟩
      rw [hgap, hafter]
      cases hlist : id.toList with
      | nil => exact absurd (String.toList_eq_nil_iff.mp hlist) hne
      | cons c more =>
          refine ⟨c, rfl, hchars c ?_⟩
          rw [hlist]
          exact List.mem_cons_self
  · exact absurd hgap (by simp only [reduceCtorEq, not_false_eq_true])

/-- How the text of a line starts, for each of the three classes of statements.
    The classes are told apart by what follows the first endpoint. -/
inductive Starts (cs : List Char) : Statement → Prop where
  | declaration {id : String} {b : Bracket} {tail : List Char} :
      endpoint? cs = some (⟨id, some b⟩, tail) → (∀ c ∈ tail, Text.isBlank c = true) →
      Starts cs (.declare id b)
  | edge {form : Form} {arrow after tail rest : List Char} {line : Line} {e : EdgeText} :
      form.arrow? = some (arrow, line) → endpoint? cs = some (e.source, tail) →
      skipGap tail = arrow ++ after → after.head? ≠ some '>' → edge? arrow cs = some (e, rest) →
      Starts cs (.connect ⟨e.source, e.target, line, e.label⟩)
  | style {tail : List Char} {c : Char} {s : Statement} :
      endpoint? cs = some (⟨"style", none⟩, tail) → (skipGap tail).head? = some c →
      isIdChar c = true → style? cs = some s → Starts cs s

theorem starts_of_read? {form : Form} {cs : List Char} {s : Statement}
    (h : form.read? cs = some s) : Starts cs s := by
  -- Every form with an arrow reads an edge, and each of the others its own statement.
  cases harrow : form.arrow? with
  | some found =>
      rcases found with ⟨arrow, line⟩
      rcases exists_edge?_of_read? harrow h with ⟨e, rest, hedge, _, rfl⟩
      rcases exists_endpoint?_of_edge? hedge with ⟨tail, after, hsource, hskip, hhead⟩
      exact .edge harrow hsource hskip hhead hedge
  | none =>
      cases form with
      | nodeDeclaration =>
          rcases exists_of_declaration? h with ⟨id, tail, b, rest, hid, hbracket, hblank, rfl⟩
          refine .declaration ?_ hblank
          simp only [endpoint?, hid, hbracket, Option.bind_eq_bind, Option.bind_some,
            Option.pure_def]
      | styleDirective =>
          rcases exists_of_style? h with ⟨tail, hid, hbracket, c, hhead, hc⟩
          refine .style ?_ hhead hc h
          simp only [endpoint?, hid, hbracket, Option.bind_eq_bind, Option.bind_some,
            Option.pure_def]
      | bracketedEdge | labelledTargetEdge | plainEdge | mixedEdge | dashedEdge | dottedLink =>
          exact absurd harrow (by simp only [Form.arrow?, reduceCtorEq, not_false_eq_true])

theorem head?_arrow {form : Form} {arrow : List Char} {line : Line}
    (h : form.arrow? = some (arrow, line)) (after : List Char) :
    (arrow ++ after).head? = some '-' := by
  cases form <;> simp only [Form.arrow?, Option.some.injEq, Prod.mk.injEq, reduceCtorEq] at h <;>
    rcases h with ⟨rfl, rfl⟩ <;> rfl

/-- A text that starts with two arrows starts with the dotted line and the
    dashed arrow, and then the head of the arrow is left. -/
theorem arrow_unique {form form' : Form} {arrow arrow' after after' : List Char} {line line' : Line}
    (h : form.arrow? = some (arrow, line)) (h' : form'.arrow? = some (arrow', line'))
    (hhead : after.head? ≠ some '>') (hhead' : after'.head? ≠ some '>')
    (heq : arrow ++ after = arrow' ++ after') : arrow = arrow' ∧ line = line' := by
  -- Of the three arrows only one starts with another, the dashed one with the dotted line.
  have hall : ∀ f : Form, ∀ a l, f.arrow? = some (a, l) →
      (a, l) ∈ [(Form.solidArrow, Line.arrow), (Form.dashedArrow, .dashed),
        (Form.dottedLine, .dotted)] := by
    intro f a l hf
    cases f <;> simp only [Form.arrow?, Option.some.injEq, reduceCtorEq] at hf <;>
      rw [← hf] <;> decide
  have hmem := hall form arrow line h
  have hmem' := hall form' arrow' line' h'
  simp only [List.mem_cons, List.not_mem_nil, or_false, Prod.mk.injEq] at hmem hmem'
  rcases hmem with ⟨rfl, rfl⟩ | ⟨rfl, rfl⟩ | ⟨rfl, rfl⟩ <;>
    rcases hmem' with ⟨rfl, rfl⟩ | ⟨rfl, rfl⟩ | ⟨rfl, rfl⟩ <;>
    simp [Form.solidArrow, Form.dashedArrow, Form.dottedLine] at heq ⊢
  · exact hhead' (by rw [← heq]; rfl)
  · exact hhead (by rw [heq]; rfl)

/-- Behind a declaration only blanks are left, and an arrow is none. -/
theorem skipGap_ne_arrow_of_blank {form : Form} {arrow after tail : List Char} {line : Line}
    (h : form.arrow? = some (arrow, line)) (hblank : ∀ c ∈ tail, Text.isBlank c = true) :
    skipGap tail ≠ arrow ++ after := by
  intro hskip
  have hhead := head?_arrow h after
  rw [← hskip] at hhead
  have hmem : '-' ∈ tail := List.dropWhile_subset isGap (List.mem_of_mem_head? hhead)
  exact absurd (hblank '-' hmem) (by decide)

/-- All that a line can say is decided by how it starts. -/
theorem Starts.unique {cs : List Char} {s s' : Statement} (h : Starts cs s) (h' : Starts cs s') :
    s = s' := by
  -- Either both texts start in one way, which tells what is read, or the tails behind the endpoint
  -- contradict each other.
  cases h with
  | declaration hend hblank =>
      cases h' with
      | declaration hend' hblank' =>
          simp only [hend, Option.some.injEq, Prod.mk.injEq, Endpoint.mk.injEq] at hend'
          rcases hend' with ⟨⟨rfl, rfl⟩, _⟩
          rfl
      | edge harrow hend' hskip _ _ =>
          simp only [hend, Option.some.injEq, Prod.mk.injEq] at hend'
          rw [← hend'.2] at hskip
          exact absurd hskip (skipGap_ne_arrow_of_blank harrow hblank)
      | style hend' _ _ _ =>
          simp only [hend, Option.some.injEq, Prod.mk.injEq, Endpoint.mk.injEq, reduceCtorEq,
            and_false, false_and] at hend'
  | edge harrow hend hskip hhead hedge =>
      cases h' with
      | declaration hend' hblank' =>
          simp only [hend, Option.some.injEq, Prod.mk.injEq] at hend'
          rw [hend'.2] at hskip
          exact absurd hskip (skipGap_ne_arrow_of_blank harrow hblank')
      | edge harrow' hend' hskip' hhead' hedge' =>
          simp only [hend, Option.some.injEq, Prod.mk.injEq] at hend'
          rw [← hend'.2, hskip] at hskip'
          -- Two edges with the same arrow were read by the same grammar.
          rcases arrow_unique harrow harrow' hhead hhead' hskip' with ⟨rfl, rfl⟩
          rw [hedge, Option.some.injEq, Prod.mk.injEq] at hedge'
          rw [hedge'.1]
      | style hend' hstart hid _ =>
          simp only [hend, Option.some.injEq, Prod.mk.injEq] at hend'
          rw [← hend'.2, hskip, head?_arrow harrow, Option.some.injEq] at hstart
          rw [← hstart] at hid
          exact absurd hid (by decide)
  | style hend hstart hid hstyle =>
      cases h' with
      | declaration hend' _ =>
          simp only [hend, Option.some.injEq, Prod.mk.injEq, Endpoint.mk.injEq, reduceCtorEq,
            and_false, false_and] at hend'
      | edge harrow hend' hskip _ _ =>
          simp only [hend, Option.some.injEq, Prod.mk.injEq] at hend'
          rw [hend'.2, hskip, head?_arrow harrow, Option.some.injEq] at hstart
          rw [← hstart] at hid
          exact absurd hid (by decide)
      | style _ _ _ hstyle' => exact Option.some.inj (hstyle.symm.trans hstyle')

/-! ## Forms -/

/-- All forms that read a line agree about what it says. -/
theorem read?_unique {form form' : Form} {cs : List Char} {s s' : Statement}
    (h : form.read? cs = some s) (h' : form'.read? cs = some s') : s = s' :=
  (starts_of_read? h).unique (starts_of_read? h')

theorem read?_of_ofLine? {cs : List Char} {form : Form} {s : Statement}
    (h : ofLine? cs = some (form, s)) : form.read? cs = some s := by
  rcases List.exists_of_findSome?_eq_some h with ⟨form', _, hread⟩
  simp only [Option.map_eq_some_iff, Prod.mk.injEq] at hread
  rcases hread with ⟨s', hs', rfl, rfl⟩
  exact hs'

/-- What some forms say is what any of them reads. -/
theorem firstOf?_eq_some_iff (forms : List Form) (cs : List Char) (s : Statement) :
    Form.firstOf? forms cs = some s ↔ ∃ form ∈ forms, form.read? cs = some s := by
  constructor
  · exact List.exists_of_findSome?_eq_some
  · rintro ⟨form, hmem, hread⟩
    cases hfirst : Form.firstOf? forms cs with
    | none =>
        have hnone := List.findSome?_eq_none_iff.mp hfirst form hmem
        rw [hread] at hnone
        exact absurd hnone (by simp only [reduceCtorEq, not_false_eq_true])
    | some s' =>
        rcases List.exists_of_findSome?_eq_some hfirst with ⟨form', _, hread'⟩
        rw [read?_unique hread' hread]

theorem firstOf?_all (cs : List Char) : Form.firstOf? Form.all cs = (ofLine? cs).map Prod.snd := by
  rw [ofLine?, List.map_findSome?, Form.firstOf?]
  congr 1
  funext form
  rw [Function.comp_apply, Option.map_map]
  exact Option.map_id'.symm

/-- A line says what some form reads from it, whichever form that is. -/
theorem ofLine?_eq_some_iff (cs : List Char) (s : Statement) :
    (ofLine? cs).map Prod.snd = some s ↔ ∃ form : Form, form.read? cs = some s := by
  have hall : ∀ form : Form, form ∈ Form.all := by
    intro form
    cases form <;> decide
  rw [← firstOf?_all, firstOf?_eq_some_iff]
  exact exists_congr fun form => and_iff_right (hall form)

end Statement

end Flowchart
