import Flowchart.Graph.Basic
import Flowchart.Statement.Basic

/-!
# Drafts

A draft is the part of a graph that the lines read so far have said. An id
enters it at its first mention, as a rectangle labelled with the id. A bracket
overwrites the shape and the label, wherever it stands, and a style is laid
over the one before.

## Main definitions

* `Draft`: Nodes in the order of first mention, and edges.
* `Draft.declare`, `Draft.connect`, `Draft.restyle`: What statements make of it.
* `Draft.newIds`: The ids that a statement enters.
-/

namespace Flowchart

/-- The part of a graph that was read so far. -/
structure Draft where
  nodes : List Node
  edges : List Edge
deriving DecidableEq

namespace Draft

/-- The draft that nothing was read into. -/
def empty : Draft := ⟨[], []⟩

/-- Whether an id was mentioned. -/
def knows (d : Draft) (id : String) : Bool := d.nodes.any (·.id == id)

/-- The nodes after a change to the one with an id, which is entered at the
    end if there is none. -/
def upsert (id : String) (change : Node → Node) : List Node → List Node
  | [] => [change (.named id)]
  | n :: ns => if n.id = id then change n :: ns else n :: upsert id change ns

/-- The draft after a mention of an id that changes its node. -/
def mention (d : Draft) (id : String) (change : Node → Node) : Draft :=
  { d with nodes := upsert id change d.nodes }

/-- The node with the shape and the label of a bracket. A blank label reads as
    the id. -/
def reshape (bracket : Bracket) (n : Node) : Node :=
  { n with
    shape := bracket.shape
    label := if bracket.label = "" then n.id else bracket.label }

/-- The draft after a mention of a node with a bracket. -/
def declare (d : Draft) (id : String) (bracket : Bracket) : Draft :=
  d.mention id (reshape bracket)

/-- The draft after a mention of an end of an edge. -/
def endpoint (d : Draft) (e : Endpoint) : Draft :=
  match e.bracket with
  | some bracket => d.declare e.id bracket
  | none => d.mention e.id id

/-- The edge of a connection. -/
def edge (c : Connection) : Edge :=
  { Edge.between c.source.id c.target.id with line := c.line, label := c.label }

/-- The draft after an edge, whose source is mentioned before its target. -/
def connect (d : Draft) (c : Connection) : Draft :=
  let d := (d.endpoint c.source).endpoint c.target
  { d with edges := d.edges ++ [edge c] }

/-- The draft after a style is laid over a node. -/
def restyle (d : Draft) (id : String) (style : Style) : Draft :=
  d.mention id (·.addStyle style)

/-- The ids that a statement mentions, in order. -/
def mentions : Statement → List String
  | .declare id _ => [id]
  | .connect c => [c.source.id, c.target.id]
  | .restyle id _ => [id]

/-- The ids that enter a draft with a statement. -/
def newIds (d : Draft) (s : Statement) : List String :=
  ((mentions s).filter fun id => !d.knows id).eraseDups

/-- The graph of a draft. -/
def graph (d : Draft) : Graph := ⟨d.nodes, d.edges⟩

end Draft

end Flowchart
