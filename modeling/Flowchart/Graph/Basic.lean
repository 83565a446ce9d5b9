import Flowchart.Color.Basic
import Flowchart.Geometry

/-!
# Flowchart Graphs

A flowchart is a list of nodes in the order of their first mention and a list
of edges in the order of their lines. It says what is drawn and, once it was
laid out, where. A node whose position the user chose is pinned, and its
position is then input to a layout and not output.

Ids are not required to be distinct here. A graph that was read from a
flowchart text has distinct node ids; a graph from elsewhere may not, and every
lookup then finds the first node of an id.

## Main definitions

* `Shape`, `Style`, `Node`: A box of the flowchart.
* `Line`, `Edge`: A connection.
* `Graph`: The flowchart.
* `Drawing`: A graph that was laid out, with the size of its drawing.
-/

namespace Flowchart

/-- The outline of a node. -/
inductive Shape where
  | rectangle
  | circle
  | diamond
  | rounded
  | stadium
deriving DecidableEq, Repr

namespace Shape

/-- The size of a node that has none of its own. -/
def defaultSize : Shape → Size
  | circle => ⟨80, 80⟩
  | diamond => ⟨100, 80⟩
  | rectangle | rounded | stadium => ⟨120, 60⟩

end Shape

/-- What the author of a flowchart chose for the look of a node. -/
structure Style where
  fill : Option Color := none
  stroke : Option Color := none
  strokeWidth : Option Float32 := none
deriving DecidableEq

namespace Style

/-- The style that chooses nothing. -/
def empty : Style := ⟨none, none, none⟩

/-- Whether a style chooses nothing. -/
def isEmpty (s : Style) : Bool := s.fill.isNone && s.stroke.isNone && s.strokeWidth.isNone

/-- The style `s` with the choices of `top` laid over it. -/
def overlay (s top : Style) : Style :=
  ⟨top.fill.or s.fill, top.stroke.or s.stroke, top.strokeWidth.or s.strokeWidth⟩

end Style

/-- A box of a flowchart. -/
structure Node where
  id : String
  label : String
  shape : Shape := .rectangle
  position : Option Point := none
  size : Option Size := none
  style : Option Style := none
  pinned : Bool := false
deriving DecidableEq

namespace Node

/-- A rectangle labelled with its own id. -/
def named (id : String) : Node := ⟨id, id, .rectangle, none, none, none, false⟩

/-- The node's own size, or that of its shape. -/
def effectiveSize (n : Node) : Size := n.size.getD n.shape.defaultSize

/-- The position that a layout must keep, if there is one. -/
def pinnedPosition (n : Node) : Option Point := if n.pinned then n.position else none

/-- The node pinned at a position. -/
def pinAt (n : Node) (position : Point) : Node :=
  { n with position := some position, pinned := true }

/-- The node placed by a layout. -/
def placed (n : Node) (position : Point) (size : Size) : Node :=
  { n with position := some position, size := some size }

/-- The node with choices laid over its style. A style that chooses nothing
    leaves a node without a style as it is. -/
def addStyle (n : Node) (top : Style) : Node :=
  if top.isEmpty then n
  else { n with style := some ((n.style.getD .empty).overlay top) }

end Node

/-- How the line of an edge is drawn. -/
inductive Line where
  | arrow
  | dashed
  | dotted
deriving DecidableEq, Repr

/-- A connection from one node to another, each named by its id. The edge's
    own id need not be unique. -/
structure Edge where
  id : String
  source : String
  target : String
  label : Option String := none
  line : Line := .arrow
  points : Option (List Point) := none
deriving DecidableEq

namespace Edge

/-- An edge between two ids, which make up its own. -/
def between (source target : String) : Edge :=
  ⟨source ++ "-" ++ target, source, target, none, .arrow, none⟩

/-- Whether an edge ends where it starts. -/
def isLoop (e : Edge) : Bool := e.source == e.target

end Edge

/-- A flowchart. -/
structure Graph where
  nodes : List Node
  edges : List Edge
deriving DecidableEq

namespace Graph

/-- The flowchart that shows nothing. -/
def empty : Graph := ⟨[], []⟩

/-- Whether a flowchart has no nodes. -/
def isEmpty (g : Graph) : Bool := g.nodes.isEmpty

/-- The first node with an id. -/
def node? (g : Graph) (id : String) : Option Node := g.nodes.find? (·.id == id)

/-- The edges with an end that is no node. -/
def dangling (g : Graph) : List Edge :=
  g.edges.filter fun e => (g.node? e.source).isNone || (g.node? e.target).isNone

end Graph

/-- A graph with positions, and the size of what it takes to draw it. -/
structure Drawing where
  graph : Graph
  bounds : Size
deriving DecidableEq

end Flowchart
