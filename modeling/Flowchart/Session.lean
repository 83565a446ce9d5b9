import Flowchart.Diagram.Basic
import Flowchart.Graph.Pin
import Flowchart.Layout.Basic
import Flowchart.Viewport

/-!
# Sessions

A user edits the text of a flowchart, drags nodes and sees the drawing. The
session keeps the graph, the size of its last drawing and the viewport that
shows it. An edit that fails is no edit, so each function here says what a
session becomes or why it stays.

## Main definitions

* `Session`: The graph, the bounds and the viewport.
* `Session.read`, `Session.layout`, `Session.drag`: Edits of the text, layouts
  and drags.
* `Session.drop`: The drag that a pointer on the screen asks for.
-/

namespace Flowchart

/-- What a user works on. -/
structure Session where
  graph : Graph := .empty
  bounds : Size := .zero
  viewport : Viewport := .identity
deriving DecidableEq

namespace Session

/-- The session with another graph. -/
def load (s : Session) (g : Graph) : Session := { s with graph := g }

/-- The session after its text was read again. Pins are carried over from the
    graph so far if they are to be kept. -/
def read (s : Session) (keepPins : Bool) (source : String) : Except ParseError Session :=
  (Diagram.parse false source).map fun diagram =>
    s.load (if keepPins then diagram.graph.pinsFrom s.graph else diagram.graph)

/-- The session with the pins of another graph. -/
def pinsFrom (s : Session) (older : Graph) : Session := s.load (s.graph.pinsFrom older)

/-- Whether a drag moves a node of the session. -/
def takes (s : Session) (d : Drag) : Bool := (s.graph.drag? d).isSome

/-- The session after a drag. -/
def drag (s : Session) (d : Drag) : Session := s.load (s.graph.drag d)

/-- The drag of a node to a point of the screen. -/
def drop (s : Session) (node : String) (screen : Point) : Drag :=
  ⟨node, s.viewport.toDrawing screen⟩

/-- The session after a layout. -/
def layout (s : Session) (engine : Engine) (options : Engine.Options) (grid : Grid) : Session :=
  let drawing := s.graph.layout engine options grid
  { s with graph := drawing.graph, bounds := drawing.bounds }

/-- The session whose drawing is fitted into a canvas. -/
def fit (s : Session) (canvas : Size) : Session := { s with viewport := .fit s.bounds canvas }

/-- The session with one more node. -/
def addNode (s : Session) (n : Node) : Session :=
  s.load { s.graph with nodes := s.graph.nodes ++ [n] }

/-- The session with one more edge. -/
def addEdge (s : Session) (e : Edge) : Session :=
  s.load { s.graph with edges := s.graph.edges ++ [e] }

/-- The session with choices laid over the style of every node of an id. -/
def restyle (s : Session) (id : String) (top : Style) : Session :=
  s.load { s.graph with
    nodes := s.graph.nodes.map fun n => if n.id = id then n.addStyle top else n }

end Session

end Flowchart
