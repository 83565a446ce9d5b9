import Flowchart.Diagram.Collector
import Flowchart.Diagram.Draft
import Flowchart.Diagram.Style

/-!
# Passes

A pass goes once through the lines of a text. It carries the draft, the
collector of remarks and the steps that were told so far, and each line changes
all three as its parts are met: a property that is refused is remarked on before
the next property is looked at, and only then is the node mentioned.

## Main definitions

* `Pass`: What is carried from line to line.
* `Pass.emit`: A remark on the way.
* `Pass.style`: The properties of a directive.
* `Pass.readLine`: One line.
-/

namespace Flowchart

/-- What is carried from line to line. -/
structure Pass where
  draft : Draft
  collector : Collector
  /-- The steps that were told so far. -/
  log : List Step
deriving DecidableEq

namespace Pass

/-- The pass before the first of some lines. -/
def start (strict : Bool) (lines : List Source.Line) : Pass :=
  ⟨.empty, .new strict, [.lines lines.length]⟩

/-- The pass after one more step was told. -/
def tell (p : Pass) (step : Step) : Pass := { p with log := p.log ++ [step] }

/-- The pass after a remark. -/
def emit (p : Pass) (d : Diagnostic) : Pass :=
  let (collector, steps) := p.collector.emit d
  { p with collector := collector, log := p.log ++ steps }

/-- The style that properties lay over another one, and the pass after them. A
    property that is refused leaves the style as it is and is remarked on. -/
def style (p : Pass) (location : Location) (under : Style) : List Property → Style × Pass
  | [] => (under, p)
  | q :: qs =>
      match q.style? with
      | .ok top => p.style location (under.overlay top) qs
      | .error reason =>
          (p.emit (.invalidProperty q.key q.value reason location)).style location under qs

/-- The pass after a statement has changed the draft. The ids that it mentions
    for the first time are told. -/
def enter (p : Pass) (s : Statement) (change : Draft → Draft) : Pass :=
  { p with
    draft := change p.draft
    log := p.log ++ (p.draft.newIds s).map .registered }

/-- The pass after a line. -/
def readLine (p : Pass) (line : Source.Line) : Pass :=
  match Statement.ofLine? line.text.toList with
  | some (form, s) =>
      let p := p.tell (.matched form line.text)
      match s with
      | .declare id bracket => p.enter s (·.declare id bracket)
      | .connect c => p.enter s (·.connect c)
      | .restyle id ps =>
          let (style, p) := p.style line.location .empty ps
          p.enter s (·.restyle id style)
  | none =>
      (p.tell (.skipped line.location.line line.text)).emit (.unrecognizedLine line)

end Pass

end Flowchart
