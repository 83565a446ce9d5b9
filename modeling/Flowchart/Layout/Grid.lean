import Flowchart.Graph.Basic

/-!
# Grid Layout

The layout that never fails: nodes go from left to right and from top to
bottom, in their order, all of one size. Pinned nodes stay where they are, and
the drawing is made large enough for them. Edges have no points.

## Main definitions

* `Grid`: The cells.
* `Grid.layout`: The drawing of a graph on a grid.
-/

namespace Flowchart

/-- The cells of a grid. -/
structure Grid where
  columns : Nat := 4
  columnSpacing : Float32 := 150
  rowSpacing : Float32 := 100
  margin : Float32 := 50
  nodeSize : Size := ⟨120, 60⟩
deriving DecidableEq

namespace Grid

/-- The number of nodes in a row, which is one at least. -/
def width (grid : Grid) : Nat := max grid.columns 1

/-- The top left corner of a cell. -/
def cell (grid : Grid) (i : Nat) : Point :=
  ⟨Float32.ofNat (i % grid.width) * grid.columnSpacing + grid.margin,
    Float32.ofNat (i / grid.width) * grid.rowSpacing + grid.margin⟩

/-- The size of a drawing with so many cells. -/
def extent (grid : Grid) (count : Nat) : Size :=
  let columns := min count grid.width
  let rows := (count + grid.width - 1) / grid.width
  ⟨Float32.ofNat columns * grid.columnSpacing + 2 * grid.margin,
    Float32.ofNat rows * grid.rowSpacing + 2 * grid.margin⟩

/-- The position of a node in a cell, unless it is pinned elsewhere. -/
def position (grid : Grid) (n : Node) (i : Nat) : Point := n.pinnedPosition.getD (grid.cell i)

/-- The boxes of the pinned nodes. -/
def pinnedBoxes (grid : Grid) (ns : List Node) : List Box :=
  ns.filterMap fun n => n.pinnedPosition.map fun position => .ofTopLeft position grid.nodeSize

/-- The drawing of a graph on a grid. -/
def layout (grid : Grid) (g : Graph) : Drawing :=
  let bounds := (grid.pinnedBoxes g.nodes).foldl (fun size box => size.growTo box grid.margin)
    (grid.extent g.nodes.length)
  ⟨⟨g.nodes.zipIdx.map fun (n, i) => n.placed (grid.position n i) grid.nodeSize,
    g.edges.map fun e => { e with points := none }⟩, bounds⟩

end Grid

end Flowchart
