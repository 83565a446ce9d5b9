import Flowchart.Engine.Basic
import Flowchart.Graph.Basic

/-!
# Talking to an Engine

A graph is laid out by asking an engine. The request names the edges by their
places, `e0`, `e1` and so on, because several edges may share an id; a pinned
node is a fixed box. The plan that comes back says where nodes and edges go,
and everything else about them is kept. A pinned node stays where it is,
whatever the plan says, and the drawing is made large enough for it.

## Main definitions

* `Engine.Request.ofGraph`: What an engine is asked.
* `Engine.Plan.apply`: The drawing that a plan makes of a graph.
-/

namespace Flowchart

namespace Engine

/-- The name of the edge at a place. -/
def edgeName (place : Nat) : String := "e" ++ toString place

namespace Request

/-- The box of a node. -/
def item (n : Node) : Item := ⟨n.id, n.label, n.effectiveSize, n.pinnedPosition⟩

/-- The link of the edge at a place. -/
def link (e : Edge) (place : Nat) : Link := ⟨edgeName place, e.source, e.target, e.label⟩

/-- What an engine is asked about a graph. -/
def ofGraph (g : Graph) : Request :=
  ⟨g.nodes.map item, g.edges.zipIdx.map fun (e, place) => link e place⟩

end Request

namespace Plan

/-- The last placement of an id. -/
def placement? (p : Plan) (id : String) : Option Placement :=
  p.placements.reverse.find? fun placement => placement.id == id

/-- The last route of an edge name. -/
def route? (p : Plan) (name : String) : Option Route :=
  p.routes.reverse.find? fun route => route.id == name

/-- The node where a plan puts it, and the box for which the drawing must have
    room if the node is pinned. -/
def node (n : Node) (placement : Placement) : Node × Option Box :=
  match n.pinnedPosition with
  | some position =>
      let size := n.size.getD placement.size
      (n.placed position size, some (.ofTopLeft position size))
  | none => (n.placed placement.position placement.size, none)

/-- The nodes where a plan puts them, and the boxes that need room, or the
    failure that one is missing. -/
def nodes (p : Plan) (ns : List Node) : Except Failure (List (Node × Option Box)) :=
  ns.mapM fun n =>
    match p.placement? n.id with
    | some placement => .ok (node n placement)
    | none => .error (.missingNode n.id)

/-- The edge at a place with its route, or without points if it has none. -/
def edge (p : Plan) (e : Edge) (place : Nat) : Edge :=
  { e with points := (p.route? (edgeName place)).map Route.points }

/-- The drawing that a plan makes of a graph. -/
def apply (p : Plan) (g : Graph) (padding : Float32) : Except Failure Drawing := do
  let placed ← p.nodes g.nodes
  let bounds := (placed.filterMap Prod.snd).foldl (fun size box => size.growTo box padding) p.size
  return ⟨⟨placed.map Prod.fst, g.edges.zipIdx.map fun (e, place) => p.edge e place⟩, bounds⟩

end Plan

end Engine

end Flowchart
