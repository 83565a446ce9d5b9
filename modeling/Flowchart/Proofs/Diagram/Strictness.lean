import Flowchart.Command.Run
import Flowchart.Proofs.Diagram.Meaning
import Mathlib.Data.List.Forall2

/-!
# Strictness

A strict reading reports what it passes over and a lenient one does not, and
that is all there is between them. What a text passes over is told here without
a reading: a line that no form reads, or a property that gives neither a color
nor a width. The remarks of a reading are then one for each of these, in their
order, whatever the draft held when the line was read.

That a collector leaves the draft alone was shown line by line, so a strict and
a lenient reading are both what the text has to say, with its remarks or without
them. The rest is a matter of following two runs through the same steps. Only
the warnings of a diagram know of the setting, and neither the layout nor the
printer looks at them.

## Main definitions

* `Oversight`: A part of a text that says nothing.
* `Source.oversights`: All of them, in the order of the text.
* `Oversight.Reports`: A diagnostic is the report of an oversight.
* `Diagram.Alike`: Two readings of a text differ in their warnings alone.
* `Command.drawing`: The drawing of a run, strict or not.

## Theorems

* `Property.isRefused_iff`: A property is refused if it gives nothing.
* `Reading.reports_remarks`: The remarks on a text report its oversights.
* `alike_parse`: A strict and a lenient reading are alike.
* `map_deliver`, `map_written_run`: What a run writes, told without its
  strictness.
* `strictness_only_observes`: Both at once.
-/

namespace Flowchart

/-- A part of a text that says nothing: a line, or a property in a line. -/
inductive Oversight where
  | line (line : Source.Line)
  | property (line : Source.Line) (property : Property)

/-- Whether a property gives neither a color nor a width. -/
def Property.isRefused (p : Property) : Bool :=
  p.fill?.isNone && p.stroke?.isNone && p.width?.isNone

/-- What a line does not say. A line that no form reads says nothing at all. -/
def Source.Line.oversights (line : Source.Line) : List Oversight :=
  match Statement.ofLine? line.text.toList with
  | none => [.line line]
  | some (_, .restyle _ ps) => (ps.filter Property.isRefused).map (.property line)
  | some _ => []

/-- The oversights of a text: those of the lines after its header. -/
def Source.oversights (source : String) : List Oversight :=
  (stripHeader (lines source)).2.flatMap Line.oversights

namespace Oversight

/-- The line of an oversight. -/
def place : Oversight → Source.Line
  | .line l => l
  | .property l _ => l

/-- The short name of the cause. -/
def code : Oversight → String
  | .line _ => "E100"
  | .property _ _ => "E101"

/-- What is said about an oversight. -/
def message : Oversight → String
  | .line l => "unrecognized line `" ++ l.text ++ "`"
  | .property _ p => "invalid style property `" ++ p.key ++ ":" ++ p.value ++ "`"

/-- A hint is the one about an oversight. That on a property is why it is
    refused. -/
def Hint (hint : Option String) : Oversight → Prop
  | .line _ => hint = some "edges are written `A --> B`, `A -.-> B` or `A -.- B`"
  | .property _ p => ∃ reason, p.style? = .error reason ∧ hint = some reason

/-- A diagnostic is the report of an oversight. -/
structure Reports (o : Oversight) (d : Diagnostic) : Prop where
  severity : d.severity = .warning
  code : d.code.map Code.text = some o.code
  message : d.message = o.message
  location : d.location = some o.place.location
  help : o.Hint d.help

end Oversight

/-- A strict and a lenient diagram of one text. -/
structure Diagram.Observes (source : String) (strict lenient : Diagram) : Prop where
  graph : strict.graph = lenient.graph
  direction : strict.direction = lenient.direction
  silent : lenient.warnings = []
  reports : List.Forall₂ Oversight.Reports (Source.oversights source) strict.warnings

/-- A strict and a lenient reading of one text end alike: they fail with the
    same error, or both have a diagram. -/
inductive Diagram.Alike (source : String) :
    Except ParseError Diagram → Except ParseError Diagram → Prop
  | error (e : ParseError) : Alike source (.error e) (.error e)
  | ok {strict lenient : Diagram} (h : Observes source strict lenient) :
      Alike source (.ok strict) (.ok lenient)

/-- What a run leaves behind, its remarks apart. -/
def Command.written (result : Disk.Tree × Delivery) : Disk.Tree × String × String :=
  (result.1, result.2.path, result.2.text)

/-! ## Remarks -/

namespace Property

/-- A property that is not refused sets something. -/
theorem isEmpty_eq_false_of_style? {p : Property} {top : Style} (h : p.style? = .ok top) :
    top.isEmpty = false := by
  unfold style? at h
  split at h
  · cases hcolor : color? p.value with
    | error reason => rw [hcolor] at h; cases h
    | ok color => rw [hcolor] at h; cases h; rfl
  · cases hcolor : color? p.value with
    | error reason => rw [hcolor] at h; cases h
    | ok color => rw [hcolor] at h; cases h; rfl
  · split at h
    · cases h; rfl
    · cases h
  · cases h

/-- A property is refused if it gives nothing, and then for some reason. -/
theorem isRefused_iff (p : Property) : p.isRefused = true ↔ ∃ reason, p.style? = .error reason := by
  have hset : p.isRefused = (⟨p.fill?, p.stroke?, p.width?⟩ : Style).isEmpty := rfl
  rw [hset, ← p.match_style?_eq]
  cases hstyle : p.style? with
  | error reason => exact iff_of_true rfl ⟨reason, rfl⟩
  | ok top =>
      refine iff_of_false ?_ ?_
      · rw [isEmpty_eq_false_of_style? hstyle]
        exact Bool.false_ne_true
      · rintro ⟨reason, hreason⟩
        cases hreason

end Property

namespace Oversight

theorem reports_line (line : Source.Line) :
    (Oversight.line line).Reports (.unrecognizedLine line) :=
  ⟨rfl, rfl, rfl, rfl, rfl⟩

theorem reports_property (line : Source.Line) {p : Property} {reason : String}
    (h : p.style? = .error reason) :
    (Oversight.property line p).Reports (.invalidProperty p.key p.value reason line.location) :=
  ⟨rfl, rfl, rfl, rfl, reason, h, rfl⟩

/-- The remarks on the properties of a line are one for each that is refused. -/
theorem reports_filterMap (line : Source.Line) (ps : List Property) :
    List.Forall₂ Reports ((ps.filter Property.isRefused).map (.property line))
      (ps.filterMap (·.remark? line.location)) := by
  induction ps with
  | nil => exact .nil
  | cons p ps ih =>
      -- A property is kept without a remark, or refused with one.
      cases hstyle : p.style? with
      | ok top =>
          have hkept : ¬ p.isRefused = true := by
            rw [p.isRefused_iff, hstyle]
            rintro ⟨reason, hreason⟩
            cases hreason
          rw [List.filter_cons_of_neg hkept, List.filterMap_cons_none (by
            rw [Property.remark?, hstyle])]
          exact ih
      | error reason =>
          have hrefused : p.isRefused = true := p.isRefused_iff.mpr ⟨reason, hstyle⟩
          rw [List.filter_cons_of_pos hrefused, List.filterMap_cons_some (by
            rw [Property.remark?, hstyle])]
          exact .cons (reports_property line hstyle) ih

end Oversight

/-- The remarks on a line report its oversights. -/
theorem Source.Line.reports_remarks (line : Line) :
    List.Forall₂ Oversight.Reports line.oversights line.remarks := by
  unfold oversights remarks statement?
  cases Statement.ofLine? line.text.toList with
  | none => exact .cons (Oversight.reports_line line) .nil
  | some found =>
      rcases found with ⟨form, s⟩
      cases s with
      | declare id bracket => exact .nil
      | connect c => exact .nil
      | restyle id ps => exact Oversight.reports_filterMap line ps

theorem Source.reports_flatMap (lines : List Line) :
    List.Forall₂ Oversight.Reports (lines.flatMap Line.oversights)
      (lines.flatMap Line.remarks) := by
  induction lines with
  | nil => exact .nil
  | cons line lines ih => exact List.rel_append line.reports_remarks ih

/-- The remarks on a text report its oversights. -/
theorem Reading.reports_remarks {source : String} {r : Reading} (h : ofSource? source = .ok r) :
    List.Forall₂ Oversight.Reports (Source.oversights source) r.remarks := by
  unfold ofSource? at h
  split at h
  · cases h
  · cases h
    exact Source.reports_flatMap _

/-! ## Two readings -/

/-- A strict and a lenient reading of a text are alike. -/
theorem Diagram.alike_parse (source : String) :
    Alike source (parse true source) (parse false source) := by
  rw [parse_eq, parse_eq]
  cases h : Reading.ofSource? source with
  | error e => exact .error e
  | ok r => exact .ok ⟨rfl, rfl, rfl, Reading.reports_remarks h⟩

/-- A lenient reading drops, step by step, what a strict one keeps. -/
theorem Trace.map_discarded (source : String) :
    (ofSource? false source).map discarded = (Diagram.parse true source).map Diagram.warnings := by
  rw [map_discarded_ofSource?, Diagram.parse_eq]
  cases Reading.ofSource? source <;> rfl

/-! ## Two runs -/

/-- The graph of a text, which no setting has a part in. -/
def Source.graph (source : String) : Except RunError Graph :=
  match Diagram.parse false source with
  | .ok diagram => .ok diagram.graph
  | .error e => .error (.parse e source)

theorem Config.map_graph_read (c : Config) (source : String) :
    (c.read source).map Diagram.graph = Source.graph source := by
  unfold read Source.graph
  cases c.strict with
  | false => cases Diagram.parse false source <;> rfl
  | true =>
      generalize hstrict : Diagram.parse true source = strict
      generalize hlenient : Diagram.parse false source = lenient
      have halike := Diagram.alike_parse source
      rw [hstrict, hlenient] at halike
      cases halike with
      | error e => rfl
      | ok h => exact congrArg Except.ok h.graph

namespace Command

/-- The drawing of a run, told without the strictness of the run. -/
def drawing (engine : Engine) (place : Place) (args : Arguments) : Except RunError Drawing := do
  let c ← findConfig place args.config
  let g ← Source.graph (← readText place.working args.input)
  let g ← withPins place.working g args.pins
  return c.draw engine g

/-- A run delivers the text of its drawing. -/
theorem map_deliver (engine : Engine) (place : Place) (args : Arguments) :
    (deliver engine place args).map (fun d => (d.path, d.text)) =
      (drawing engine place args).map fun d => (args.output, d.toJson.pretty) := by
  unfold deliver drawing config
  cases findConfig place args.config with
  | error e => rfl
  | ok c =>
      cases readText place.working args.input with
      | error e => rfl
      | ok source =>
          have hgraph :=
            ({ c with strict := args.strict || c.strict } : Config).map_graph_read source
          -- Both go through the same stages, and how strict the reading is makes no difference to
          -- its graph.
          dsimp only [bind, Except.bind, pure, Except.pure]
          rw [← hgraph]
          cases ({ c with strict := args.strict || c.strict } : Config).read source with
          | error e => rfl
          | ok diagram =>
              dsimp only [Except.map]
              cases withPins place.working diagram.graph args.pins <;> rfl

theorem map_written_run (engine : Engine) (working : Disk.Tree) (settings : Disk)
    (args : Arguments) :
    (run engine working settings args).map written =
      (drawing engine ⟨working.look, settings⟩ args).bind fun d =>
        match working.write args.output d.toJson.pretty.toUTF8 with
        | .ok tree => .ok (tree, args.output, d.toJson.pretty)
        | .error fault => .error (.io fault.message) := by
  -- Writing looks at the path and the text of a delivery, and both come from the drawing.
  calc (run engine working settings args).map written
      = ((deliver engine ⟨working.look, settings⟩ args).map fun d => (d.path, d.text)).bind
          fun (path, text) =>
            match working.write path text.toUTF8 with
            | .ok tree => .ok (tree, path, text)
            | .error fault => .error (.io fault.message) := by
        unfold run
        cases deliver engine ⟨working.look, settings⟩ args with
        | error e => rfl
        | ok delivery =>
            dsimp only [bind, Except.bind, pure, Except.pure, Except.map]
            cases working.write delivery.path delivery.text.toUTF8 <;> rfl
    _ = ((drawing engine ⟨working.look, settings⟩ args).map
          fun d => (args.output, d.toJson.pretty)).bind _ := by rw [map_deliver]
    _ = _ := by cases drawing engine ⟨working.look, settings⟩ args <;> rfl

/-- A run writes the same for every strictness. -/
theorem map_written_run_strict (engine : Engine) (working : Disk.Tree) (settings : Disk)
    (args : Arguments) (strict : Bool) :
    (run engine working settings { args with strict := strict }).map written =
      (run engine working settings args).map written := by
  rw [map_written_run, map_written_run]
  rfl

end Command

/-- Strictness only observes. A strict and a lenient reading of a text end
    alike, and the lenient one drops the very remarks that the strict one
    keeps. So a run writes the same, strict or not. -/
theorem strictness_only_observes :
    (∀ source : String,
      Diagram.Alike source (Diagram.parse true source) (Diagram.parse false source) ∧
      (Trace.ofSource? false source).map Trace.discarded =
        (Diagram.parse true source).map Diagram.warnings) ∧
    ∀ (engine : Engine) (working : Disk.Tree) (settings : Disk) (args : Arguments),
      (Command.run engine working settings { args with strict := true }).map Command.written =
        (Command.run engine working settings { args with strict := false }).map
          Command.written := by
  refine ⟨fun source => ⟨Diagram.alike_parse source, Trace.map_discarded source⟩, ?_⟩
  intro engine working settings args
  exact (Command.map_written_run_strict engine working settings args true).trans
    (Command.map_written_run_strict engine working settings args false).symm

end Flowchart
