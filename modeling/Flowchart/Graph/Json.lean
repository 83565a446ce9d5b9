import Flowchart.Graph.Pin
import Flowchart.Json.Field
import Flowchart.Viewport

/-!
# Graphs as JSON

The form in which graphs travel between this program and a renderer. What is
not set is left out when a graph is written; a style that was set but chooses
nothing is an empty object, and a list of points may be empty too. Colors are
checked when they are read, and keep their text.

## Main definitions

* `Graph.toJson`, `Graph.ofJson?`: Writing and reading a graph.
* `Drawing.toJson`, `Drawing.ofJson?`: The same for a drawing.
* `Viewport.ofJson?`, `Drag.ofJson?`: Reading what a renderer sends.
-/

namespace Flowchart

/-- The members whose values are set. -/
def Json.present (ms : List (String × Option Json)) : List (String × Json) :=
  ms.filterMap fun (key, value) => value.map fun v => (key, v)

namespace Point

/-- A point as a value. -/
def toJson (p : Point) : Json := .ofMembers [("x", .ofSingle p.x), ("y", .ofSingle p.y)]

/-- The point that a value denotes. -/
def ofJson? (json : Json) : Option Point := do
  match ← json.fields? ["x", "y"] with
  | [x, y] => return ⟨← Json.required Json.single? x, ← Json.required Json.single? y⟩
  | _ => none

end Point

namespace Size

/-- A size as a value. -/
def toJson (s : Size) : Json :=
  .ofMembers [("width", .ofSingle s.width), ("height", .ofSingle s.height)]

/-- The size that a value denotes. -/
def ofJson? (json : Json) : Option Size := do
  match ← json.fields? ["width", "height"] with
  | [w, h] => return ⟨← Json.required Json.single? w, ← Json.required Json.single? h⟩
  | _ => none

end Size

namespace Color

/-- A color as a value, which is its text. -/
def toJson (c : Color) : Json := .ofText c.css

/-- The color that a value denotes. -/
def ofJson? (json : Json) : Option Color := do
  match Color.parse (← json.text?) with
  | .ok color => some color
  | .error _ => none

end Color

namespace Shape

/-- The word for a shape. -/
def text : Shape → String
  | rectangle => "rectangle"
  | circle => "circle"
  | diamond => "diamond"
  | rounded => "rounded"
  | stadium => "stadium"

/-- The shape that a word names. -/
def ofText? : String → Option Shape
  | "rectangle" => some rectangle
  | "circle" => some circle
  | "diamond" => some diamond
  | "rounded" => some rounded
  | "stadium" => some stadium
  | _ => none

/-- The shape that a value denotes. -/
def ofJson? (json : Json) : Option Shape := do ofText? (← json.variant?)

end Shape

namespace Line

/-- The word for a line. -/
def text : Line → String
  | arrow => "arrow"
  | dashed => "dashed"
  | dotted => "dotted"

/-- The line that a word names. -/
def ofText? : String → Option Line
  | "arrow" => some arrow
  | "dashed" => some dashed
  | "dotted" => some dotted
  | _ => none

/-- The line that a value denotes. -/
def ofJson? (json : Json) : Option Line := do ofText? (← json.variant?)

end Line

namespace Style

/-- A style as a value. -/
def toJson (s : Style) : Json :=
  .ofMembers (Json.present [
    ("fill", s.fill.map Color.toJson),
    ("stroke", s.stroke.map Color.toJson),
    ("strokeWidth", s.strokeWidth.map Json.ofSingle)])

/-- The style that a value denotes. -/
def ofJson? (json : Json) : Option Style := do
  match ← json.fields? ["fill", "stroke", "strokeWidth"] with
  | [fill, stroke, width] =>
      return ⟨← Json.optional Color.ofJson? fill, ← Json.optional Color.ofJson? stroke,
        ← Json.optional Json.single? width⟩
  | _ => none

end Style

namespace Node

/-- A node as a value. -/
def toJson (n : Node) : Json :=
  .ofMembers (Json.present [
    ("id", some (.ofText n.id)),
    ("label", some (.ofText n.label)),
    ("shape", some (.ofText n.shape.text)),
    ("position", n.position.map Point.toJson),
    ("size", n.size.map Size.toJson),
    ("style", n.style.map Style.toJson),
    ("pinned", some (.bool n.pinned))])

/-- The node that a value denotes. -/
def ofJson? (json : Json) : Option Node := do
  match ← json.fields? ["id", "label", "shape", "position", "size", "style", "pinned"] with
  | [id, label, shape, position, size, style, pinned] =>
      return ⟨← Json.required Json.text? id, ← Json.required Json.text? label,
        ← Json.withDefault .rectangle Shape.ofJson? shape,
        ← Json.optional Point.ofJson? position, ← Json.optional Size.ofJson? size,
        ← Json.optional Style.ofJson? style, ← Json.withDefault false Json.bool? pinned⟩
  | _ => none

end Node

namespace Edge

/-- An edge as a value. -/
def toJson (e : Edge) : Json :=
  .ofMembers (Json.present [
    ("id", some (.ofText e.id)),
    ("from", some (.ofText e.source)),
    ("to", some (.ofText e.target)),
    ("label", e.label.map Json.ofText),
    ("type", some (.ofText e.line.text)),
    ("points", e.points.map fun ps => .array (ps.map Point.toJson))])

/-- The edge that a value denotes. -/
def ofJson? (json : Json) : Option Edge := do
  match ← json.fields? ["id", "from", "to", "label", "type", "points"] with
  | [id, source, target, label, line, points] =>
      return ⟨← Json.required Json.text? id, ← Json.required Json.text? source,
        ← Json.required Json.text? target, ← Json.optional Json.text? label,
        ← Json.withDefault .arrow Line.ofJson? line,
        ← Json.optional (Json.list? Point.ofJson?) points⟩
  | _ => none

end Edge

namespace Graph

/-- A graph as a value. -/
def toJson (g : Graph) : Json :=
  .ofMembers [("nodes", .array (g.nodes.map Node.toJson)),
    ("edges", .array (g.edges.map Edge.toJson))]

/-- The graph that a value denotes. -/
def ofJson? (json : Json) : Option Graph := do
  match ← json.fields? ["nodes", "edges"] with
  | [nodes, edges] =>
      return ⟨← Json.withDefault [] (Json.list? Node.ofJson?) nodes,
        ← Json.withDefault [] (Json.list? Edge.ofJson?) edges⟩
  | _ => none

end Graph

namespace Drawing

/-- A drawing as a value. -/
def toJson (d : Drawing) : Json :=
  .ofMembers [("graph", d.graph.toJson), ("bounds", d.bounds.toJson)]

/-- The drawing that a value denotes. -/
def ofJson? (json : Json) : Option Drawing := do
  match ← json.fields? ["graph", "bounds"] with
  | [graph, bounds] =>
      return ⟨← Json.required Graph.ofJson? graph, ← Json.required Size.ofJson? bounds⟩
  | _ => none

end Drawing

/-- The viewport that a value denotes. -/
def Viewport.ofJson? (json : Json) : Option Viewport := do
  match ← json.fields? ["scale", "translateX", "translateY"] with
  | [scale, x, y] =>
      return ⟨← Json.required Json.single? scale, ← Json.required Json.single? x,
        ← Json.required Json.single? y⟩
  | _ => none

/-- The drag that a value denotes. -/
def Drag.ofJson? (json : Json) : Option Drag := do
  match ← json.fields? ["nodeId", "position"] with
  | [id, position] =>
      return ⟨← Json.required Json.text? id, ← Json.required Point.ofJson? position⟩
  | _ => none

end Flowchart
