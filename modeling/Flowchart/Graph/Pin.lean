import Flowchart.Graph.Basic

/-!
# Pins

A user who drags a node pins it: the node takes the position it was dropped at
and keeps it in every layout after that. When the text of a flowchart is read
again, its graph is new, and the pins are carried over from the old one by id.

## Main definitions

* `Drag`: A node dropped at a position.
* `Graph.drag`: The graph after a drag.
* `Graph.pinsFrom`: The pins of an older graph carried onto this one.
-/

namespace Flowchart

/-- A node dropped at a position. -/
structure Drag where
  node : String
  position : Point
deriving DecidableEq

namespace Graph

/-- The nodes after the first with an id was changed. -/
def modifyFirst (id : String) (f : Node → Node) : List Node → List Node
  | [] => []
  | n :: ns => if n.id = id then f n :: ns else n :: modifyFirst id f ns

/-- The graph after a drag, or nothing if no node has the id. Of several nodes
    with the id the first is moved. -/
def drag? (g : Graph) (d : Drag) : Option Graph :=
  if g.nodes.any (·.id == d.node) then
    some { g with nodes := modifyFirst d.node (·.pinAt d.position) g.nodes }
  else none

/-- The graph after a drag, which changes nothing if no node has the id. -/
def drag (g : Graph) (d : Drag) : Graph := (g.drag? d).getD g

/-- The position at which the last pinned node of an id is pinned. -/
def pin? (g : Graph) (id : String) : Option Point :=
  g.nodes.reverse.findSome? fun n => if n.id = id then n.pinnedPosition else none

/-- The graph with the pins of an older one. A pin stays with its id, and an
    id that the new graph lacks loses its pin. -/
def pinsFrom (g older : Graph) : Graph :=
  { g with nodes := g.nodes.map fun n =>
      match older.pin? n.id with
      | some position => n.pinAt position
      | none => n }

end Graph

end Flowchart
