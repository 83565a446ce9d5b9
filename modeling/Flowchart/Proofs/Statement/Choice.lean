import Flowchart.Proofs.Statement.Order
import Flowchart.Proofs.Statement.Printer

/-!
# The Choice of a Label

An edge has two places for a label, next to its arrow and after its target, and a line
may use both. The label of the edge should be the first text that says something. The
choice is made before the texts are looked at, though: a text next to the arrow is taken
because it is there, and only then is it found to be blank. So a blank text in the first
place hides a label in the second, and this is the one case in which the label of an edge
is not the first that was written.

What was written is a matter of the text and not of the readers. `Written` puts the text
of an edge together from its ends, its arrow, and its labels between pipes; a line can be
put together in one way only, whichever form reads it, so that there is no second opinion
about which labels it has.

## Main definitions

* `EdgeText.Written`: A line is made of these ends and these labels.
* `EdgeText.firstLabel?`: The first label that is not blank.
* `EdgeText.Hides`: A blank label stands before one that is not.

## Theorems

* `pipe?_gap_piped`: A place for a label is read as it was written.
* `written_iff`: A line is read as the edge that it is made of, and as no other.
* `EdgeText.label_eq`: Which label an edge has.
* `edge_keeps_label`: An edge has the first label of its line, unless it is hidden.
* `edge_loses_label`: Some labels are hidden.
-/

namespace Flowchart

namespace Statement

open Source (skipGap isGap)

namespace EdgeText

/-- A place for a label: the label between its pipes, or nothing. -/
def piped : Option (List Char) → List Char
  | none => []
  | some text => '|' :: (text ++ ['|'])

/-- The line consists of the two ends, the arrow between them and a label in each of the
    two places, if there is one. There may be gaps between them and blanks at the end, and
    a label holds no pipe. -/
def Written (e : EdgeText) (arrow cs : List Char) : Prop :=
  ∃ (beforeArrow afterArrow afterEarly beforeLate : Gap) (behind rest : List Char),
    endpoint? cs = some (e.source, beforeArrow.chars ++ (arrow ++
      (afterArrow.chars ++ (piped e.early ++ (afterEarly.chars ++ behind))))) ∧
    endpoint? behind = some (e.target, beforeLate.chars ++ (piped e.late ++ rest)) ∧
    (∀ text, e.early = some text → '|' ∉ text) ∧ (∀ text, e.late = some text → '|' ∉ text) ∧
    ∀ c ∈ rest, Text.isBlank c = true

/-- The label that a text stands for: the text without the blanks around it, and none if
    it is nothing but blanks. -/
def shown? (text : List Char) : Option String :=
  if text.all Text.isBlank then none else some (String.ofList (Text.trim text))

/-- The first label that is not blank, in the order in which they are written. -/
def firstLabel? (e : EdgeText) : Option String :=
  (e.early.toList ++ e.late.toList).findSome? shown?

/-- A blank label next to the arrow stands before one that is not blank. -/
def Hides (e : EdgeText) : Prop :=
  ∃ early late, e.early = some early ∧ e.late = some late ∧
    early.all Text.isBlank = true ∧ late.all Text.isBlank = false

/-! ## One label of two -/

theorem label_eq_bind (e : EdgeText) : e.label = (e.early.or e.late).bind shown? := by
  rw [label]
  cases e.early.or e.late with
  | none => rfl
  | some text =>
      rw [Option.map_some, Option.bind_some, shown?]
      cases hblank : text.all Text.isBlank with
      | true => rw [Text.trim_eq_nil_of_all hblank, if_pos rfl]
      | false =>
          -- Something is left after trimming.
          rcases List.all_eq_false.mp hblank with ⟨c, hc, hshown⟩
          have hmem := Text.mem_trim hc (Bool.not_eq_true _ ▸ hshown)
          rw [if_neg Bool.false_ne_true]
          cases htrim : Text.trim text with
          | nil =>
              rw [htrim] at hmem
              exact absurd hmem List.not_mem_nil
          | cons d ds => rfl

/-- The early text is taken if there is one, and so a blank one hides the late text. -/
theorem label_eq (e : EdgeText) :
    (e.Hides → e.label = none ∧ ∃ label, e.firstLabel? = some label) ∧
      (¬ e.Hides → e.label = e.firstLabel?) := by
  rcases e with ⟨source, target, early, late⟩
  rw [label_eq_bind]
  constructor
  · rintro ⟨text, text', rfl, rfl, hblank, hshown⟩
    refine ⟨by simp only [Option.some_or, Option.bind_some, shown?, hblank, if_true], ?_⟩
    refine ⟨String.ofList (Text.trim text'), ?_⟩
    simp only [firstLabel?, Option.toList_some, List.cons_append, List.nil_append,
      List.findSome?_cons, shown?, hblank, hshown, if_true, Bool.false_eq_true, if_false]
  · intro hhides
    cases early with
    | none => cases late <;> simp [firstLabel?]
    | some text =>
        cases hblank : text.all Text.isBlank with
        | false => simp [firstLabel?, shown?, hblank]
        | true =>
            -- With a blank text before it, the late one is blank as well.
            cases late with
            | none => simp [firstLabel?, shown?, hblank]
            | some text' =>
                cases hblank' : text'.all Text.isBlank with
                | true => simp [firstLabel?, shown?, hblank, hblank']
                | false => exact absurd ⟨text, text', rfl, rfl, hblank, hblank'⟩ hhides

end EdgeText

/-! ## Places for labels -/

theorem exists_gap (cs : List Char) : ∃ g : Gap, cs = g.chars ++ skipGap cs :=
  ⟨⟨cs.takeWhile isGap, fun c hc => (isGap_iff c).mp (List.mem_takeWhile_imp hc)⟩,
    List.takeWhile_append_dropWhile.symm⟩

/-- A place for a label is read as it was written, if what follows is not a label itself. -/
theorem pipe?_gap_piped (g : Gap) {label : Option (List Char)} {rest : List Char}
    (hlabel : ∀ text, label = some text → '|' ∉ text) (hrest : (skipGap rest).head? ≠ some '|') :
    pipe? (skipGap (g.chars ++ (EdgeText.piped label ++ rest))) =
      label.map fun text => (text, rest) := by
  rw [skipGap_append]
  cases label with
  | none => exact pipe?_eq_none hrest
  | some text =>
      refine (pipe?_eq_some_iff _ _ _).mpr ⟨?_, hlabel text rfl⟩
      simp only [EdgeText.piped, List.cons_append, List.append_assoc, List.nil_append]
      exact skipGap_of_head? fun c hc => Option.some.inj hc ▸ rfl

/-- What is read as a label behind a gap was written as one. -/
theorem exists_gap_piped {cs text rest : List Char} (h : pipe? (skipGap cs) = some (text, rest)) :
    ∃ g : Gap, cs = g.chars ++ (EdgeText.piped (some text) ++ rest) := by
  rcases exists_gap cs with ⟨g, hg⟩
  refine ⟨g, ?_⟩
  rw [EdgeText.piped, List.cons_append, List.append_assoc, List.singleton_append,
    ← ((pipe?_eq_some_iff _ _ _).mp h).1]
  exact hg

theorem exists_head?_of_endpoint? {cs rest : List Char} {e : Endpoint}
    (h : endpoint? cs = some (e, rest)) : ∃ c, cs.head? = some c ∧ isIdChar c = true := by
  simp only [endpoint?, Option.bind_eq_bind, Option.bind_eq_some_iff] at h
  rcases h with ⟨⟨id, tail⟩, hid, _⟩
  rcases (id?_eq_some_iff cs tail id).mp hid with ⟨rfl, ⟨hne, hchars⟩, _⟩
  cases hlist : id.toList with
  | nil => exact absurd (String.toList_eq_nil_iff.mp hlist) hne
  | cons c more =>
      refine ⟨c, rfl, hchars c ?_⟩
      rw [hlist]
      exact List.mem_cons_self

/-! ## Lines -/

/-- An edge that a line is made of is read from it, up to blanks at the end. -/
theorem edge?_of_written {line : Line} {cs : List Char} {e : EdgeText}
    (h : e.Written line.token cs) :
    ∃ rest, edge? line.token cs = some (e, rest) ∧ ∀ c ∈ rest, Text.isBlank c = true := by
  rcases e with ⟨source, target, early, late⟩
  rcases h with ⟨beforeArrow, afterArrow, afterEarly, beforeLate, behind, rest, hsource, htarget,
    hearly, hlate, hblank⟩
  rcases exists_head?_of_endpoint? htarget with ⟨c, hhead, hid⟩
  have hbehind : skipGap behind = behind := by
    refine skipGap_of_head? fun d hd => ?_
    rw [hhead, Option.some.injEq] at hd
    rw [← hd]
    exact isGap_of_isIdChar hid
  -- Neither the target nor the blanks at the end start with a pipe.
  have hfirst : (skipGap (afterEarly.chars ++ behind)).head? ≠ some '|' := by
    rw [skipGap_append, hbehind, hhead, Ne, Option.some.injEq]
    rintro rfl
    exact absurd hid (by decide)
  have hsecond : (skipGap rest).head? ≠ some '|' := fun hpipe =>
    absurd (hblank '|' (List.dropWhile_subset isGap (List.mem_of_mem_head? hpipe))) (by decide)
  have harrow : token? line.token (skipGap (beforeArrow.chars ++ (line.token ++
      (afterArrow.chars ++ (EdgeText.piped early ++ (afterEarly.chars ++ behind)))))) =
      some (afterArrow.chars ++ (EdgeText.piped early ++ (afterEarly.chars ++ behind))) := by
    rw [skipGap_append, skipGap_token, token?_eq_some_iff]
  have hread := pipe?_gap_piped afterArrow hearly hfirst
  have hread' := pipe?_gap_piped beforeLate hlate hsecond
  have hskip : skipGap (afterEarly.chars ++ behind) = behind := by rw [skipGap_append, hbehind]
  have hend : ∀ c ∈ beforeLate.chars ++ rest, Text.isBlank c = true := fun c hc =>
    (List.mem_append.mp hc).elim isBlank_of_mem_gap (hblank c)
  -- Four ways to be written, for which the grammar takes four ways.
  cases early <;> cases late <;>
    simp only [EdgeText.piped, List.nil_append, Option.map_none, Option.map_some] at *
  case none.none =>
    refine ⟨beforeLate.chars ++ rest, edge?_of_bare hsource harrow hread ?_ hread', hend⟩
    rw [skipGap_append, hskip, htarget]
  case some.none =>
    refine ⟨beforeLate.chars ++ rest, edge?_of_early hsource harrow hread ?_ hread', hend⟩
    rw [hskip, htarget]
  case none.some =>
    refine ⟨rest, edge?_of_late hsource harrow hread ?_ hread', hblank⟩
    rw [skipGap_append, hskip, htarget]
  case some.some =>
    refine ⟨rest, ?_, hblank⟩
    simp only [edge?, hsource, harrow, hread, hskip, htarget, hread', Option.bind_eq_bind,
      Option.bind_some, Option.pure_def]

/-- A line is made of the edge that is read from it. -/
theorem written_of_edge? {arrow cs rest : List Char} {e : EdgeText}
    (h : edge? arrow cs = some (e, rest)) (hblank : ∀ c ∈ rest, Text.isBlank c = true) :
    e.Written arrow cs := by
  unfold edge? at h
  simp only [Option.bind_eq_bind, Option.bind_eq_some_iff, Option.pure_def, Option.some.injEq,
    Prod.mk.injEq] at h
  rcases h with ⟨⟨source, tail⟩, hsource, after, harrow, ⟨target, ending⟩, htarget, he, hrest⟩
  have hearly : e.early = (pipe? (skipGap after)).map Prod.fst := by
    rw [← he]
    cases pipe? (skipGap after) <;> rfl
  have hlate : e.late = (pipe? (skipGap ending)).map Prod.fst := by
    rw [← he]
    cases pipe? (skipGap ending) <;> rfl
  rw [← hrest] at hblank
  have hends : e.source = source ∧ e.target = target := by rw [← he]; exact ⟨rfl, rfl⟩
  rcases exists_gap tail with ⟨beforeArrow, htail⟩
  rw [(token?_eq_some_iff _ _ _).mp harrow] at htail
  -- Between the arrow and the target there is a gap, or a label between two gaps.
  have hfirst : ∃ (g g' : Gap) (behind : List Char),
      after = g.chars ++ (EdgeText.piped e.early ++ (g'.chars ++ behind)) ∧
      endpoint? behind = some (target, ending) ∧ ∀ text, e.early = some text → '|' ∉ text := by
    rw [hearly]
    cases hpipe : pipe? (skipGap after) with
    | none =>
        rw [hpipe] at htarget
        rcases exists_gap after with ⟨g, hg⟩
        exact ⟨g, ⟨[], List.forall_mem_nil _⟩, _, hg, htarget, by simp⟩
    | some found =>
        rw [hpipe] at htarget
        rcases exists_gap_piped hpipe with ⟨g, hg⟩
        rcases exists_gap found.2 with ⟨g', hg'⟩
        rw [hg'] at hg
        refine ⟨g, g', _, hg, htarget, ?_⟩
        rintro text ⟨⟩
        exact ((pipe?_eq_some_iff _ _ _).mp hpipe).2
  -- Behind the target there are only blanks, or a label and then blanks.
  have hsecond : ∃ (g : Gap) (rest : List Char),
      ending = g.chars ++ (EdgeText.piped e.late ++ rest) ∧
      (∀ text, e.late = some text → '|' ∉ text) ∧ ∀ c ∈ rest, Text.isBlank c = true := by
    rw [hlate]
    cases hpipe : pipe? (skipGap ending) with
    | none =>
        rw [hpipe] at hblank
        exact ⟨⟨[], List.forall_mem_nil _⟩, _, rfl, by simp, hblank⟩
    | some found =>
        rw [hpipe] at hblank
        rcases exists_gap_piped hpipe with ⟨g, hg⟩
        refine ⟨g, _, hg, ?_, hblank⟩
        rintro text ⟨⟩
        exact ((pipe?_eq_some_iff _ _ _).mp hpipe).2
  rcases hfirst with ⟨afterArrow, afterEarly, behind, hafter, hbehind, hpipe⟩
  rcases hsecond with ⟨beforeLate, last, hending, hpipe', hlast⟩
  refine ⟨beforeArrow, afterArrow, afterEarly, beforeLate, behind, last, ?_, ?_, hpipe, hpipe',
    hlast⟩
  · rw [hends.1, ← hafter, ← htail, hsource]
  · rw [hends.2, ← hending, hbehind]

theorem written_iff {line : Line} {cs : List Char} {e : EdgeText} :
    e.Written line.token cs ↔
      ∃ rest, edge? line.token cs = some (e, rest) ∧ ∀ c ∈ rest, Text.isBlank c = true :=
  ⟨edge?_of_written, fun ⟨_, hread, hblank⟩ => written_of_edge? hread hblank⟩

theorem token_of_arrow? {form : Form} {arrow : List Char} {line : Line}
    (h : form.arrow? = some (arrow, line)) : line.token = arrow := by
  cases form <;> simp only [Form.arrow?, Option.some.injEq, Prod.mk.injEq, reduceCtorEq] at h <;>
    rcases h with ⟨rfl, rfl⟩ <;> rfl

/-- A form that reads an edge reads the one that the line is made of, also if it has a
    grammar of its own. -/
theorem exists_written_of_read? {form : Form} {cs : List Char} {c : Connection}
    (h : form.read? cs = some (.connect c)) :
    ∃ e : EdgeText, e.Written c.line.token cs ∧ c = ⟨e.source, e.target, c.line, e.label⟩ := by
  cases harrow : form.arrow? with
  | none =>
      -- A form without an arrow is of a kind that reads no edges.
      have hkind := kind_of_read? h
      cases form with
      | nodeDeclaration | styleDirective => cases hkind
      | bracketedEdge | labelledTargetEdge | plainEdge | mixedEdge | dashedEdge | dottedLink =>
          cases harrow
  | some found =>
      rcases found with ⟨arrow, line⟩
      rcases exists_edge?_of_read? harrow h with ⟨e, rest, hread, hblank, hc⟩
      rw [Statement.connect.injEq] at hc
      subst hc
      rw [← token_of_arrow? harrow] at hread
      exact ⟨e, written_iff.mpr ⟨rest, hread, hblank⟩, rfl⟩

/-- The edge of a line is made of two ends and two places for labels in one way only. Its
    label is the first one in these places that is not blank, and there is none if both
    are absent or blank; except that a blank label next to the arrow hides the one after
    the target, and then the edge has no label although the line has one. -/
theorem edge_keeps_label {cs : List Char} {form : Form} {c : Connection}
    (h : ofLine? cs = some (form, .connect c)) :
    ∃ e : EdgeText, (∀ e' : EdgeText, e'.Written c.line.token cs ↔ e' = e) ∧
      c.source = e.source ∧ c.target = e.target ∧
      (¬ e.Hides → c.label = e.firstLabel?) ∧
      (e.Hides → c.label = none ∧ ∃ label, e.firstLabel? = some label) := by
  rcases exists_written_of_read? (read?_of_ofLine? h) with ⟨e, hwritten, hc⟩
  -- Whatever the line is made of is what is read from it, and that is one edge.
  have hunique : ∀ e' : EdgeText, e'.Written c.line.token cs ↔ e' = e := by
    intro e'
    rcases written_iff.mp hwritten with ⟨rest, hread, _⟩
    constructor
    · intro hwritten'
      rcases written_iff.mp hwritten' with ⟨rest', hread', _⟩
      rw [hread] at hread'
      exact (Prod.mk.inj (Option.some.inj hread')).1.symm
    · rintro rfl
      exact hwritten
  have hlabel : c.label = e.label := by rw [hc]
  rw [hlabel]
  exact ⟨e, hunique, by rw [hc], by rw [hc], e.label_eq.2, e.label_eq.1⟩

/-- A dashed edge between brackets, with a label in each place. -/
theorem edge_keeps_label_first :
    let cs := "A[x] -.->| yes |B\x7by\x7d|no| ".toList
    let c : Connection := ⟨⟨"A", some ⟨.rectangle, "x"⟩⟩, ⟨"B", some ⟨.diamond, "y"⟩⟩, .dashed,
      some "yes"⟩
    ofLine? cs = some (.dashedEdge, .connect c) ∧
      ∃ e : EdgeText, e.Written c.line.token cs ∧ e.early = some " yes ".toList ∧
        e.late = some "no".toList ∧ c.label = e.firstLabel? := by
  intro cs c
  have hline : ofLine? cs = some (.dashedEdge, .connect c) := by decide +kernel
  let e : EdgeText := ⟨c.source, c.target, some " yes ".toList, some "no".toList⟩
  have hwritten : e.Written c.line.token cs :=
    written_iff.mpr ⟨[' '], by decide +kernel, List.forall_mem_singleton.mpr rfl⟩
  rcases edge_keeps_label hline with ⟨e', hunique, _, _, hlabel, _⟩
  rw [← (hunique e).mp hwritten] at hlabel
  refine ⟨hline, e, hwritten, rfl, rfl, hlabel ?_⟩
  rintro ⟨early, late, ⟨⟩, _, hblank, _⟩
  exact absurd hblank (by decide)

/-- With nothing between the first two pipes the label between the others is lost. -/
theorem edge_loses_label :
    ¬ ∀ (cs : List Char) (form : Form) (c : Connection) (e : EdgeText),
      ofLine? cs = some (form, .connect c) → e.Written c.line.token cs →
        c.label = e.firstLabel? := by
  intro h
  let c : Connection := ⟨⟨"A", none⟩, ⟨"B", none⟩, .arrow, none⟩
  let e : EdgeText := ⟨c.source, c.target, some [], some "late".toList⟩
  have hlabel := h "A -->|| B |late|".toList .plainEdge c e (by decide +kernel)
    (written_iff.mpr ⟨[], by decide +kernel, fun _ hc => absurd hc List.not_mem_nil⟩)
  exact absurd hlabel (by decide)

end Statement

end Flowchart
