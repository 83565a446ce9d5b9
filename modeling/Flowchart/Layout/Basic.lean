import Flowchart.Layout.Exchange
import Flowchart.Layout.Grid

/-!
# Layout

A graph is laid out by an engine, and on a grid if the engine fails, crashes or
leaves a node out. So there is always a drawing. A graph without nodes is drawn
as an empty sheet of a default size, and no engine is asked.

## Main definitions

* `Layout.Phase`: The stages of a layout.
* `Layout.attempt`: The drawing that an engine makes, if it does.
* `Layout.run`: The drawing, with the account of how it was made.
* `Graph.layout`: The drawing alone.
-/

namespace Flowchart

namespace Layout

/-- The stages of a layout. -/
inductive Phase where
  | converting
  | computing
  | reconciling
  | failed
  | fallbackComputing
  | done
deriving DecidableEq, Repr

/-- The word for a stage. -/
def Phase.text : Phase → String
  | converting => "converting"
  | computing => "computing"
  | reconciling => "reconciling"
  | failed => "failed"
  | fallbackComputing => "fallback-computing"
  | done => "done"

/-- The size of a drawing that shows nothing. -/
def emptySheet : Size := ⟨800, 600⟩

/-- A drawing, and how it was made. -/
structure Account where
  drawing : Drawing
  phases : List Phase
  /-- The number of edges with an end that is no node. -/
  dangling : Nat
  /-- Why the engine's answer was not used. -/
  failure : Option Engine.Failure
deriving DecidableEq

/-- The drawing that an outcome makes of a graph. -/
def reconcile (outcome : Engine.Outcome) (padding : Float32) (g : Graph) :
    Except Engine.Failure Drawing := do
  (← outcome.plan?).apply g padding

/-- The drawing that an engine makes of a graph. -/
def attempt (engine : Engine) (options : Engine.Options) (g : Graph) :
    Except Engine.Failure Drawing :=
  reconcile (engine options (.ofGraph g)) options.padding g

/-- The stages that an attempt goes through. Only a plan is reconciled with the
    graph. -/
def attemptPhases (outcome : Engine.Outcome) : List Phase :=
  match outcome.plan? with
  | .ok _ => [.converting, .computing, .reconciling]
  | .error _ => [.converting, .computing]

/-- The drawing of a graph, with the account of how it was made. -/
def run (engine : Engine) (options : Engine.Options) (grid : Grid) (g : Graph) : Account :=
  if g.isEmpty then ⟨⟨.empty, emptySheet⟩, [], 0, none⟩
  else
    let dangling := g.dangling.length
    let outcome := engine options (.ofGraph g)
    let phases := attemptPhases outcome
    match reconcile outcome options.padding g with
    | .ok drawing => ⟨drawing, phases ++ [.done], dangling, none⟩
    | .error failure =>
        ⟨grid.layout g, phases ++ [.failed, .fallbackComputing, .done], dangling, some failure⟩

end Layout

/-- The drawing of a graph. -/
def Graph.layout (engine : Engine) (options : Engine.Options) (grid : Grid) (g : Graph) : Drawing :=
  (Layout.run engine options grid g).drawing

end Flowchart
