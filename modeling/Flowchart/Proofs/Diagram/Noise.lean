import Flowchart.Proofs.Diagram.Place
import Flowchart.Proofs.Row
import Mathlib.Logic.Relation

/-!
# Layout Noise

How a text is laid out has no effect on what it says: blanks around its lines,
lines that are blank or comments, and the two kinds of line endings. All that a
reading sees of a text is what its lines say once they are trimmed, the list
`Source.speech`, and no edit of that sort changes the list. The places of the
lines do change, so the warnings are compared without them.

A line that is reported as unrecognized is no noise, for its report goes away
with it. It says nothing about the graph all the same. The one thing to see is
that its deletion may bring a header to the front that was not one before. As a
header is never a statement, nothing is lost with it either, and the statements
of a text are those of all its lines, the header among them.

## Main definitions

* `Source.Edit`, `Source.Edited`: Edits of the layout.
* `Source.speech`: What the lines of a text say.
* `Source.without`: The text without a line.
* `Diagnostic.gist`: A diagnostic without its place.
* `Diagram.LooksLike`: Two diagrams differ in the places of their warnings.

## Theorems

* `speech_eq_of_edited`: Edits of the layout leave alone what a text says.
* `read_congr`: Lines with the same texts are read alike.
* `statements_eq`: A header makes no difference to the statements of a text.
* `statements_without`: Neither does a line that is no statement.
* `noise_without_effect`: What is read of a text after such changes.
-/

namespace Flowchart

namespace Source

/-- An edit of the lines of a text that is about their layout alone. Each is
    given in one direction. -/
inductive Edit : List (List Char) → List (List Char) → Prop where
  /-- A line that is blank or a comment is inserted. -/
  | insert (before after : List (List Char)) (line : List Char) :
      ¬Speaks (Text.trim line) → Edit (before ++ after) (before ++ line :: after)
  /-- The ending of a line gets a carriage return before its line feed. -/
  | ending (before after : List (List Char)) (line next : List Char) :
      Edit (before ++ line :: next :: after) (before ++ (line ++ ['\r']) :: next :: after)
  /-- Blanks are added at the start and at the end of a line. -/
  | pad (before after : List (List Char)) (line left right : List Char) :
      (∀ c ∈ left, Text.isBlank c = true) → (∀ c ∈ right, Text.isBlank c = true) →
      Edit (before ++ line :: after) (before ++ (left ++ (line ++ right)) :: after)

/-- One text comes from another by any number of edits, in either direction. -/
def Edited : String → String → Prop :=
  Relation.EqvGen fun a b => Edit (physicalLines a) (physicalLines b)

/-- What lines say, as far as they say something. -/
def said (ls : List (List Char)) : List (List Char) :=
  (ls.map Text.trim).filter fun text => Speaks text

/-- What the lines of a text say. -/
def speech (source : String) : List (List Char) := said (physicalLines source)

/-- The text without the line that has a number. -/
def without (source : String) (number : Nat) : String :=
  String.ofList (['\n'].intercalate ((physicalLines source).eraseIdx (number - 1)))

/-! ## What a text says -/

theorem said_append (ls ls' : List (List Char)) : said (ls ++ ls') = said ls ++ said ls' := by
  rw [said, List.map_append, List.filter_append, said, said]

theorem said_cons_congr {l l' : List Char} (h : Text.trim l = Text.trim l')
    (ls : List (List Char)) : said (l :: ls) = said (l' :: ls) := by
  rw [said, said, List.map_cons, List.map_cons, h]

theorem said_cons_of_silent {l : List Char} (h : ¬Speaks (Text.trim l)) (ls : List (List Char)) :
    said (l :: ls) = said ls := by
  rw [said, said, List.map_cons, List.filter_cons_of_neg (by
    rw [decide_eq_true_eq]
    exact h)]

/-- An edit of the layout leaves alone what the lines say. -/
theorem Edit.said_eq {ls ls' : List (List Char)} (h : Edit ls ls') : said ls = said ls' := by
  cases h with
  | insert before after line hsilent =>
      rw [said_append, said_append, said_cons_of_silent hsilent]
  | ending before after line next =>
      have hblank : ∀ c ∈ ['\r'], Text.isBlank c = true := List.forall_mem_singleton.mpr rfl
      rw [said_append, said_append, said_cons_congr (Text.trim_append_blank line hblank).symm]
  | pad before after line left right hleft hright =>
      have htrim : Text.trim (left ++ (line ++ right)) = Text.trim line := by
        rw [Text.trim_blank_append _ hleft, Text.trim_append_blank _ hright]
      rw [said_append, said_append, said_cons_congr htrim.symm]

theorem speech_eq_of_edited {source edited : String} (h : Edited source edited) :
    speech source = speech edited := by
  induction h with
  | rel a b hedit => exact hedit.said_eq
  | refl a => rfl
  | symm a b _ ih => exact ih.symm
  | trans a b c _ _ hab hbc => exact hab.trans hbc

theorem map_text_lines (source : String) :
    (lines source).map (fun line => line.text.toList) = speech source := by
  have hfst : (fun line : Line => line.text.toList) = Prod.fst ∘ Line.numbered := rfl
  have hspeaks : (fun p : List Char × Nat => decide (Speaks p.1)) =
      (fun text => decide (Speaks text)) ∘ Prod.fst := rfl
  rw [hfst, ← List.map_map, map_numbered_lines, hspeaks, ← List.filter_map, List.zipIdx_map_fst,
    speech, said]

end Source

/-! ## Reading the same texts -/

/-- A diagnostic without its place: its code, its message and its hint. -/
def Diagnostic.gist (d : Diagnostic) : Option Code × String × Option String :=
  (d.code, d.message, d.help)

/-- Two lines have the same text, wherever they stand. -/
def Source.Line.SameText (l l' : Source.Line) : Prop := l.text = l'.text

/-- What is remarked on a property does not hang on its place. -/
theorem Property.map_gist_remark? (p : Property) (location location' : Location) :
    (p.remark? location).map Diagnostic.gist = (p.remark? location').map Diagnostic.gist := by
  unfold remark?
  cases p.style? <;> rfl

namespace Source

/-- A line is read by its text. Its place shows in the places of remarks, and
    nowhere else. -/
theorem Line.read_congr {l l' : Line} (h : l.SameText l') :
    l.statement? = l'.statement? ∧
      l.remarks.map Diagnostic.gist = l'.remarks.map Diagnostic.gist := by
  have hstatement : l.statement? = l'.statement? := by
    rw [statement?, statement?, h]
  refine ⟨hstatement, ?_⟩
  rw [remarks, remarks, hstatement]
  split
  · simp only [List.map_cons, List.map_nil, Diagnostic.gist, Diagnostic.unrecognizedLine,
      show l.text = l'.text from h]
  · rename_i id ps _
    rw [List.map_filterMap, List.map_filterMap]
    exact congrArg (ps.filterMap ·) (funext fun p => p.map_gist_remark? l.location l'.location)
  · rfl

/-- Lines with the same texts are read alike. -/
theorem read_congr {ls ls' : List Line} (h : List.Forall₂ Line.SameText ls ls') :
    ls.filterMap Line.statement? = ls'.filterMap Line.statement? ∧
      (ls.flatMap Line.remarks).map Diagnostic.gist =
        (ls'.flatMap Line.remarks).map Diagnostic.gist := by
  induction h with
  | nil => exact ⟨rfl, rfl⟩
  | cons hline _ ih =>
      rcases Line.read_congr hline with ⟨hstatement, hgists⟩
      refine ⟨?_, ?_⟩
      · rw [List.filterMap_cons, List.filterMap_cons, hstatement, ih.1]
      · rw [List.flatMap_cons, List.flatMap_cons, List.map_append, List.map_append, hgists, ih.2]

end Source

namespace Source

theorem sameText_lines {source edited : String} (h : speech source = speech edited) :
    List.Forall₂ Line.SameText (lines source) (lines edited) := by
  rw [← map_text_lines, ← map_text_lines, ← List.forall₂_eq_eq_eq, List.forall₂_map_left_iff,
    List.forall₂_map_right_iff] at h
  exact h.imp fun l l' htext => String.toList_inj.mp htext

/-- A header is found by its text as well. -/
theorem stripHeader_congr {ls ls' : List Line} (h : List.Forall₂ Line.SameText ls ls') :
    (stripHeader ls).1 = (stripHeader ls').1 ∧
      List.Forall₂ Line.SameText (stripHeader ls).2 (stripHeader ls').2 := by
  cases h with
  | nil => exact ⟨rfl, .nil⟩
  | cons hline hrest =>
      rw [stripHeader, stripHeader, hline]
      split
      · exact ⟨rfl, hrest⟩
      · exact ⟨rfl, .cons hline hrest⟩

end Source

/-- Two diagrams say the same and have the same to remark, though perhaps in
    other places. -/
structure Diagram.LooksLike (d d' : Diagram) : Prop where
  graph : d.graph = d'.graph
  direction : d.direction = d'.direction
  gists : d.warnings.map Diagnostic.gist = d'.warnings.map Diagnostic.gist

/-- Texts that say the same are read alike, whichever of them is not blank. -/
theorem Diagram.exists_looksLike {source edited : String} (strict : Bool)
    (h : Source.speech source = Source.speech edited)
    (hsource : source.toList.all Text.isBlank = false)
    (hedited : edited.toList.all Text.isBlank = false) :
    ∃ d d', parse strict source = .ok d ∧ parse strict edited = .ok d' ∧ d.LooksLike d' := by
  rcases Source.stripHeader_congr (Source.sameText_lines h) with ⟨hdirection, hbody⟩
  rcases Source.read_congr hbody with ⟨hstatements, hgists⟩
  rw [parse_eq, parse_eq, Reading.ofSource?, Reading.ofSource?, hsource, hedited,
    if_neg Bool.false_ne_true, if_neg Bool.false_ne_true]
  refine ⟨_, _, rfl, rfl, ?_, hdirection, ?_⟩
  · exact congrArg (fun ss => (ss.foldl Draft.apply .empty).graph) hstatements
  · cases strict with
    | false => rfl
    | true => exact hgists

/-! ## Lines that are no statements -/

namespace Source

/-- A header is no statement, so the statements of a text are those of all that
    it says. -/
theorem statements_eq (source : String) :
    statements source =
      (speech source).filterMap fun text => (Statement.ofLine? text).map Prod.snd := by
  rw [← map_text_lines, List.filterMap_map, statements]
  rcases stripHeader_cases (lines source) with
    ⟨hnone, _⟩ | ⟨first, rest, d, hlines, hheader, hstrip⟩
  · rw [hnone]
    rfl
  · have hfirst : (Statement.ofLine? first.text.toList).map Prod.snd = none := by
      rw [ofLine?_of_declares (declares_of_header? hheader)]
      rfl
    rw [hstrip, hlines, List.filterMap_cons_none (by exact hfirst)]
    rfl

/-- A significant line is the physical one that its number tells. -/
theorem exists_physicalLines {source : String} {line : Line} (h : line ∈ lines source) :
    ∃ before raw after, physicalLines source = before ++ raw :: after ∧
      before.length = line.location.line - 1 ∧ Text.trim raw = line.text.toList := by
  have hmem := List.mem_map_of_mem (f := Line.numbered) h
  rw [map_numbered_lines] at hmem
  have hget := (List.mem_zipIdx_iff_le_and_getElem?_sub.mp (List.mem_filter.mp hmem).1).2
  rw [List.getElem?_map, Option.map_eq_some_iff] at hget
  rcases hget with ⟨raw, hraw, htrim⟩
  rcases List.getElem?_eq_some_iff.mp hraw with ⟨hlt, hraw⟩
  refine ⟨(physicalLines source).take (line.location.line - 1), raw,
    (physicalLines source).drop (line.location.line - 1 + 1), ?_,
    List.length_take_of_le (Nat.le_of_lt hlt), htrim⟩
  rw [← hraw]
  exact (List.take_append_drop _ _).symm.trans (congrArg _ (List.drop_eq_getElem_cons hlt))

/-- What a text says without one of its physical lines. A text cannot have no
    line at all, but then its one line is empty. -/
theorem speech_without (source : String) (number : Nat) :
    speech (without source number) = said ((physicalLines source).eraseIdx (number - 1)) := by
  rw [speech, physicalLines, without, String.toList_ofList]
  by_cases hnil : (physicalLines source).eraseIdx (number - 1) = []
  · rw [hnil]
    decide
  · have hls : ∀ l ∈ (physicalLines source).eraseIdx (number - 1), '\n' ∉ l :=
      fun l hl => not_mem_of_mem_splitOn (List.mem_of_mem_eraseIdx hl)
    rw [List.splitOn_intercalate '\n' hls hnil]

/-- A line that is no statement can be left out, whether its place is then
    taken by a header or not. -/
theorem statements_without {source : String} {line : Line} (h : line ∈ lines source)
    (hnone : Statement.ofLine? line.text.toList = none) :
    statements (without source line.location.line) = statements source := by
  rcases exists_physicalLines h with ⟨before, raw, after, hphysical, hlength, htrim⟩
  have herase : (before ++ raw :: after).eraseIdx (line.location.line - 1) = before ++ after := by
    rw [← hlength, List.eraseIdx_append_of_length_le (Nat.le_refl _), Nat.sub_self]
    rfl
  have hraw : said (raw :: after) = said [raw] ++ said after := said_append [raw] after
  -- The line itself has no statement, so that leaving it out leaves none out.
  have hquiet :
      (said [raw]).filterMap (fun text => (Statement.ofLine? text).map Prod.snd) = [] := by
    rw [List.filterMap_eq_nil_iff]
    intro text htext
    rw [List.mem_singleton.mp (List.mem_filter.mp htext).1, htrim, hnone]
    rfl
  rw [statements_eq, statements_eq, speech_without, speech, hphysical, herase, said_append,
    said_append, hraw, List.filterMap_append, List.filterMap_append, List.filterMap_append, hquiet,
    List.nil_append]

theorem subset_intercalate {α : Type} {sep l : List α} {ls : List (List α)} (h : l ∈ ls) :
    l ⊆ sep.intercalate ls := by
  induction ls with
  | nil => exact absurd h List.not_mem_nil
  | cons first rest ih =>
      cases rest with
      | nil => rw [List.mem_singleton.mp h, List.intercalate_singleton]; exact List.Subset.refl _
      | cons next rest =>
          rw [List.intercalate_cons_cons]
          rcases List.mem_cons.mp h with rfl | h
          · exact List.subset_append_of_subset_left _ (List.subset_append_left _ _)
          · exact List.subset_append_of_subset_right _ (ih h)

/-- A blank text says nothing. -/
theorem statements_of_blank {source : String} (h : source.toList.all Text.isBlank = true) :
    statements source = [] := by
  -- Every line of a blank text is blank, and trimmed it is empty.
  have hsilent : speech source = [] := by
    rw [speech, said, List.filter_eq_nil_iff]
    intro text htext
    rcases List.mem_map.mp htext with ⟨l, hl, rfl⟩
    have hblank : ∀ c ∈ l, Text.isBlank c = true := by
      intro c hc
      have hmem : c ∈ ['\n'].intercalate (physicalLines source) := subset_intercalate hl hc
      rw [physicalLines, List.intercalate_splitOn] at hmem
      exact List.all_eq_true.mp h c hmem
    have htrim : Text.trim l = [] := by
      rw [← List.append_nil l, Text.trim_blank_append [] hblank]
      rfl
    rw [htrim]
    decide
  rw [statements_eq, hsilent]
  rfl

/-- An oversight with the short name of unrecognized lines is such a line. -/
theorem ofLine?_of_mem_oversights {source : String} {o : Oversight} (h : o ∈ oversights source)
    (hcode : o.code = "E100") : Statement.ofLine? o.place.text.toList = none := by
  rcases List.mem_flatMap.mp h with ⟨line, _, ho⟩
  unfold Line.oversights at ho
  split at ho
  · rename_i hnone
    rw [List.mem_singleton.mp ho]
    exact hnone
  · rcases List.mem_map.mp ho with ⟨p, _, rfl⟩
    rw [Oversight.code] at hcode
    exact absurd hcode (by decide)
  · exact absurd ho List.not_mem_nil

end Source

/-- A warning with the short name of unrecognized lines is placed on a line that
    is no statement. -/
theorem Diagram.exists_line_of_warning {source : String} {d : Diagram}
    (h : parse true source = .ok d) {w : Diagnostic} (hw : w ∈ d.warnings)
    (hcode : w.code.map Code.text = some "E100") :
    ∃ line ∈ Source.lines source, w.location = some line.location ∧
      Statement.ofLine? line.text.toList = none := by
  rcases Row.exists_left_of_mem (marked_warnings h) hw with ⟨o, ho, hmarked⟩
  have hsame := hmarked.reports.code
  rw [hcode, Option.some.injEq] at hsame
  exact ⟨o.place, hmarked.line, hmarked.reports.location,
    Source.ofLine?_of_mem_oversights ho hsame.symm⟩

/-- A text that is not blank is read the same after any edits of its layout: it
    keeps its graph, its direction, and the gists of its warnings. A line that is
    reported as unrecognized can be left out without a change to the graph,
    whatever line stands first then. If nothing but blanks is left, the graph was
    empty. -/
theorem noise_without_effect :
    (∀ source edited : String, Source.Edited source edited →
      source.toList.all Text.isBlank = false → edited.toList.all Text.isBlank = false →
      ∀ strict, ∃ d d', Diagram.parse strict source = .ok d ∧
        Diagram.parse strict edited = .ok d' ∧ d.LooksLike d') ∧
      ∀ (source : String) (d : Diagram), Diagram.parse true source = .ok d →
        ∀ w ∈ d.warnings, w.code.map Code.text = some "E100" →
          ∃ location, w.location = some location ∧
            ((Source.without source location.line).toList.all Text.isBlank = false →
              ∀ strict, (Diagram.parse strict (Source.without source location.line)).map
                Diagram.graph = .ok d.graph) ∧
            ((Source.without source location.line).toList.all Text.isBlank = true →
              d.graph = ⟨[], []⟩) := by
  constructor
  · intro source edited h hsource hedited strict
    exact Diagram.exists_looksLike strict (Source.speech_eq_of_edited h) hsource hedited
  · intro source d h w hw hcode
    -- The warning is about a line that is no statement.
    rcases Diagram.exists_line_of_warning h hw hcode with ⟨line, hline, hlocation, hnone⟩
    have hsame := Source.statements_without hline hnone
    refine ⟨line.location, hlocation, fun hblank strict => ?_, fun hblank => ?_⟩
    · rw [Diagram.map_graph_parse, hblank, if_neg Bool.false_ne_true, hsame,
        Diagram.graph_of_parse h]
    · rw [Diagram.graph_of_parse h, ← hsame, Source.statements_of_blank hblank]
      rfl

/-- A comment, a carriage return and wide blanks are put into a text, and a line
    is taken from before a header. -/
theorem noise_without_effect_header :
    (∃ d d', Diagram.parse true "graph LR\nA-->B\n?" = .ok d ∧
      Diagram.parse true "graph LR\r\n%% c\n\u3000A-->B\t\n?" = .ok d' ∧ d.LooksLike d') ∧
      ∃ d w, Diagram.parse true "?\ngraph TD\nA-->B" = .ok d ∧ w ∈ d.warnings ∧
        (w.code.map Code.text = some "E100" ∧ w.location.map Location.line = some 1) ∧
        (Diagram.parse true "graph TD\nA-->B").map Diagram.graph = .ok d.graph := by
  constructor
  · have hplain : Source.physicalLines "graph LR\nA-->B\n?" =
        ["graph LR".toList, "A-->B".toList, "?".toList] := by decide +kernel
    have hcomment : Source.physicalLines "graph LR\n%% c\nA-->B\n?" =
        ["graph LR".toList, "%% c".toList, "A-->B".toList, "?".toList] := by decide +kernel
    have hreturn : Source.physicalLines "graph LR\r\n%% c\nA-->B\n?" =
        ["graph LR\r".toList, "%% c".toList, "A-->B".toList, "?".toList] := by decide +kernel
    have hwide : Source.physicalLines "graph LR\r\n%% c\n\u3000A-->B\t\n?" =
        ["graph LR\r".toList, "%% c".toList, "\u3000A-->B\t".toList, "?".toList] := by
      decide +kernel
    refine noise_without_effect.1 _ _ ?_ (by decide +kernel) (by decide +kernel) true
    -- Three edits, one of each kind.
    refine .trans _ "graph LR\n%% c\nA-->B\n?" _ (.rel _ _ ?_)
      (.trans _ "graph LR\r\n%% c\nA-->B\n?" _ (.rel _ _ ?_) (.rel _ _ ?_))
    · rw [hplain, hcomment]
      exact .insert ["graph LR".toList] ["A-->B".toList, "?".toList] _ (by decide)
    · rw [hcomment, hreturn]
      exact .ending [] ["A-->B".toList, "?".toList] "graph LR".toList "%% c".toList
    · rw [hreturn, hwide]
      exact .pad ["graph LR\r".toList, "%% c".toList] ["?".toList] "A-->B".toList ['\u3000'] ['\t']
        (List.forall_mem_singleton.mpr rfl) (List.forall_mem_singleton.mpr rfl)
  · -- Both lines are reported, as the header does not stand first.
    have hfacts : (Diagram.parse true "?\ngraph TD\nA-->B").map (fun d => d.warnings.map fun w =>
        (w.code.map Code.text, w.location.map Location.line)) =
          .ok [(some "E100", some 1), (some "E100", some 2)] := by decide +kernel
    have hrest : Source.without "?\ngraph TD\nA-->B" 1 = "graph TD\nA-->B" := by decide +kernel
    cases hparse : Diagram.parse true "?\ngraph TD\nA-->B" with
    | error e => rw [hparse] at hfacts; cases hfacts
    | ok d =>
        rw [hparse] at hfacts
        have hwarnings := Except.ok.inj hfacts
        rcases List.map_eq_cons_iff.mp hwarnings with ⟨w, ws, hcons, hw, _⟩
        rw [Prod.mk.injEq] at hw
        have hmem : w ∈ d.warnings := by rw [hcons]; exact List.mem_cons_self
        rcases noise_without_effect.2 _ d hparse w hmem hw.1 with ⟨location, hlocation, hgraph, _⟩
        have hline : location.line = 1 := by
          rw [hlocation] at hw
          exact Option.some.inj hw.2
        rw [hline, hrest] at hgraph
        exact ⟨d, w, rfl, hmem, hw, hgraph (by decide +kernel) true⟩

end Flowchart
