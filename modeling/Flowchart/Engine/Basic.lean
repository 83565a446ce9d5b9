import Flowchart.Geometry

/-!
# Layout Engines

An engine places boxes and routes the links between them. It sees ids, labels,
sizes and links, but not what a box looks like, and it is told which boxes must
stay where they are. Boxes and links are named by ids in the request and in the
plan that answers it; nothing forces an engine to answer for every id, or for
each only once.

An engine is any function from requests to outcomes. It may fail, and it may
crash, which is an outcome of its own with a text only if the crash had one.

## Main definitions

* `Engine.Options`: Distances, and how much effort is spent.
* `Engine.Request`: Boxes and links to be laid out.
* `Engine.Plan`: Where they go.
* `Engine.Failure`: Why there is no plan.
* `Engine`: A function that answers requests.
-/

namespace Flowchart

namespace Engine

/-- Distances, and how much effort is spent. -/
structure Options where
  nodeSpacing : Float32 := 80
  layerSpacing : Float32 := 100
  padding : Float32 := 50
  thoroughness : Nat := 7
  simplifyBends : Bool := false
deriving DecidableEq

/-- A box to be placed, or one that is fixed in its place. -/
structure Item where
  id : String
  label : String
  size : Size
  fixed : Option Point
deriving DecidableEq

/-- A link to be routed. -/
structure Link where
  id : String
  source : String
  target : String
  label : Option String
deriving DecidableEq

/-- Boxes and links to be laid out. -/
structure Request where
  items : List Item
  links : List Link
deriving DecidableEq

/-- Where a box goes, and how large it is. -/
structure Placement where
  id : String
  position : Point
  size : Size
deriving DecidableEq

/-- The way of a link from its start to its finish. -/
structure Route where
  id : String
  start : Point
  bends : List Point
  finish : Point
deriving DecidableEq

/-- Every point of a route, in order. -/
def Route.points (r : Route) : List Point := r.start :: (r.bends ++ [r.finish])

/-- Where boxes and links go. -/
structure Plan where
  placements : List Placement
  routes : List Route
  size : Size
deriving DecidableEq

/-- Why there is no plan. -/
inductive Failure where
  /-- A link ends at a box that is not there. -/
  | unknownNode (link node : String)
  /-- A box was not placed. -/
  | missingNode (node : String)
  /-- The engine crashed. -/
  | panicked (text : String)
  /-- The engine gave up. -/
  | failed (text : String)
deriving DecidableEq, Repr

/-- The wording of a failure. -/
def Failure.message : Failure → String
  | unknownNode link node => "edge `" ++ link ++ "` references unknown node `" ++ node ++ "`"
  | missingNode node => "node `" ++ node ++ "` is missing from the engine output"
  | panicked text => "layout engine panicked: " ++ text
  | failed text => "layout failed: " ++ text

/-- The failure that a crash is, with a text or without. -/
def Failure.ofCrash (text : Option String) : Failure := .panicked (text.getD "unknown panic")

/-- What becomes of a request. -/
inductive Outcome where
  | planned (plan : Plan)
  | failed (failure : Failure)
  /-- The engine crashed, with a text or without. -/
  | crashed (text : Option String)
  /-- The engine was stopped before it had an answer. -/
  | cancelled
deriving DecidableEq

/-- The plan of an outcome. Every other outcome is a failure. -/
def Outcome.plan? : Outcome → Except Failure Plan
  | planned plan => .ok plan
  | failed failure => .error failure
  | crashed text => .error (.ofCrash text)
  | cancelled => .error (.failed "layout task was cancelled")

end Engine

/-- A function that answers requests. -/
abbrev Engine := Engine.Options → Engine.Request → Engine.Outcome

end Flowchart
