import Flowchart.Proofs.Diagram.Strictness
import Flowchart.Proofs.Source.Header
import Flowchart.Proofs.Source.Place
import Flowchart.Report

/-!
# Where Warnings Point

A warning of a strict reading is shown with a label, which is a place in bytes
and a length. The label is taken over from the location of a line, so it marks
the text of that line if the line knows where it stands. The two are put
together here, with all that is known about the lines of a text.

## Main definitions

* `Oversight.Marked`: A warning points to the line of an oversight.

## Theorems

* `marked_warnings`: Every warning points to the line that it is about.
* `lines_located`: Lines and warnings are where they are said to be.
-/

namespace Flowchart

/-- A diagnostic reports an oversight in one of the lines of a source, and what
    is shown for it marks the text of that line. -/
structure Oversight.Marked (source : String) (o : Oversight) (d : Diagnostic) : Prop where
  reports : o.Reports d
  line : o.place ∈ Source.lines source
  label : ∃ label, (Report.remark d).label? = some label ∧
    Span.Selects ⟨label.offset, label.offset + label.length⟩ source o.place.text

theorem Source.Line.place_of_mem_oversights {line : Source.Line} {o : Oversight}
    (h : o ∈ line.oversights) : o.place = line := by
  unfold oversights at h
  split at h
  · rw [List.mem_singleton.mp h]
    rfl
  · rcases List.mem_map.mp h with ⟨p, _, rfl⟩
    rfl
  · exact absurd h List.not_mem_nil

theorem Source.place_mem_lines {source : String} {o : Oversight} (h : o ∈ oversights source) :
    o.place ∈ lines source := by
  rcases List.mem_flatMap.mp h with ⟨line, hline, ho⟩
  rw [Line.place_of_mem_oversights ho]
  exact stripHeader_subset _ hline

/-- The report of an oversight is shown with a label on its line. -/
theorem Oversight.Reports.marked {source : String} {o : Oversight} {d : Diagnostic}
    (h : o.Reports d) (hline : o.place ∈ Source.lines source) : o.Marked source d := by
  rcases Source.exists_stands hline with ⟨before, after, hstands⟩
  refine ⟨h, hline, _, by rw [Report.label?, h.location, Option.map_some], ?_⟩
  have hselects := hstands.selects
  -- The length of a span leads from its start to its stop.
  rw [Span.length, Nat.add_sub_cancel' hselects.ordered]
  exact hselects

/-- The warnings of a strict reading point to the lines of its oversights, one
    after the other. -/
theorem Diagram.marked_warnings {source : String} {d : Diagram} (h : parse true source = .ok d) :
    List.Forall₂ (Oversight.Marked source) (Source.oversights source) d.warnings := by
  rw [parse_eq] at h
  cases hread : Reading.ofSource? source with
  | error e => rw [hread] at h; cases h
  | ok r =>
      rw [hread] at h
      cases h
      have hboth := (List.forall₂_and_left (p := fun o => o.place ∈ Source.lines source)
        (Source.oversights source) r.remarks).mpr
        ⟨fun o ho => Source.place_mem_lines ho, Reading.reports_remarks hread⟩
      exact hboth.imp fun o w how => how.2.marked how.1

/-- The significant lines of a text are the ones between its line feeds that say
    something, in their order and with their numbers. Each selects its own text
    and nothing else, and its number and column are counted from the characters
    before it; no two overlap. So a warning marks the text of the line that it
    is about. -/
theorem lines_located (source : String) :
    (Source.lines source).map Source.Line.numbered =
        (((Source.physicalLines source).map Text.trim).zipIdx 1).filter
          (fun p => Source.Speaks p.1) ∧
      (∀ line ∈ Source.lines source, line.location.span.Selects source line.text ∧
        ∃ before after, line.Stands source before after) ∧
      (Source.lines source).Pairwise (fun a b =>
        a.location.span.stop < b.location.span.start) ∧
      ∀ d, Diagram.parse true source = .ok d →
        List.Forall₂ (Oversight.Marked source) (Source.oversights source) d.warnings := by
  refine ⟨Source.map_numbered_lines source, fun line hline => ?_, Source.pairwise_lines source,
    fun d h => Diagram.marked_warnings h⟩
  rcases Source.exists_stands hline with ⟨before, after, hstands⟩
  exact ⟨hstands.selects, before, after, hstands⟩

/-- Wide blanks before a header, a comment, characters of several bytes, a line
    with two returns at its end, a property that is refused, a return in an
    indent, and no line feed at the end. -/
theorem lines_located_umlauts :
    let source : String :=
    "\u3000graph TD\r\n\t%% é\n\u00a0Größe → ?\r\r\n  style A fill:#nope, stroke:#333\n\u2003\rx y"
    let line : Source.Line := ⟨"Größe → ?", ⟨3, 2, ⟨22, 35⟩⟩⟩
    line ∈ Source.lines source ∧ line.location.span.Selects source line.text ∧
      ∃ d, Diagram.parse true source = .ok d ∧ d.warnings.length = 3 ∧
        List.Forall₂ (Oversight.Marked source) (Source.oversights source) d.warnings := by
  intro source line
  have hline : line ∈ Source.lines source := by decide +kernel
  -- Two lines are not recognized, and one of two properties is refused.
  have hcount : (Diagram.parse true source).map (fun d => d.warnings.length) = .ok 3 := by
    decide +kernel
  refine ⟨hline, ((lines_located source).2.1 line hline).1, ?_⟩
  cases hparse : Diagram.parse true source with
  | error e => rw [hparse] at hcount; cases hcount
  | ok d =>
      rw [hparse] at hcount
      exact ⟨d, rfl, Except.ok.inj hcount, (lines_located source).2.2.2 d hparse⟩

end Flowchart
