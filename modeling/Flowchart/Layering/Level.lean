import Flowchart.Layering.Rank

/-!
# Levels

Once vertices have ranks, every arc that spans more than one rank is replaced
by a chain of arcs through dummy vertices, one on each rank between. After that
all arcs lead from one level to the next, and a layering can look at two
adjacent levels at a time.

## Main definitions

* `Leveled`: A graph whose arcs lead from one level to the next.
* `Leveled.ofRanks`: The graph with dummy vertices on long arcs.
-/

namespace Flowchart

namespace Layering

/-- A graph with a level for each vertex. -/
structure Leveled where
  graph : Digraph
  level : Array Nat
  /-- Which vertices only stand on a long arc. -/
  dummy : Array Bool

namespace Leveled

/-- The level of a vertex. -/
def levelOf (s : Leveled) (v : Nat) : Nat := s.level.getD v 0

/-- Whether a vertex only stands on a long arc. -/
def isDummy (s : Leveled) (v : Nat) : Bool := s.dummy.getD v false

/-- The array with a value at a place that may be just beyond its end. -/
def put {α : Type} (a : Array α) (i : Nat) (x : α) : Array α :=
  if i < a.size then a.setIfInBounds i x else a.push x

/-- The graph with a dummy vertex on a level, and its number. -/
def addDummy (s : Leveled) (level : Nat) : Nat × Leveled :=
  let (v, graph) := s.graph.addVertex
  (v, ⟨graph, put s.level v level, put s.dummy v true⟩)

/-- The graph with an arc from one vertex to another, through dummy vertices on
    the levels given. -/
def chain (head : Nat) : List Nat → Nat → Leveled → Leveled
  | [], tail, s => { s with graph := s.graph.addArc tail head }
  | level :: levels, tail, s =>
      let (v, s) := s.addDummy level
      chain head levels v { s with graph := s.graph.addArc tail v }

/-- The graph with a chain in place of an arc, if the arc is long. -/
def subdivide (s : Leveled) (i : Nat) : Leveled :=
  let tail := s.graph.tail i
  let head := s.graph.head i
  let first := s.levelOf tail + 1
  let gap := s.levelOf head - first
  if gap = 0 then s
  else
    chain head ((List.range gap).map (first + ·)) tail
      { s with graph := s.graph.removeArc i }

/-- The graph with ranks as levels and a chain in place of each long arc. -/
def ofRanks (g : Digraph) (ranks : Array Nat) : Leveled :=
  g.arcIds.foldl subdivide ⟨g, ranks, Array.replicate g.order false⟩

/-- The number of levels. -/
def height (s : Leveled) : Nat :=
  match (s.graph.vertices.map s.levelOf).max? with
  | some top => top + 1
  | none => 0

end Leveled

end Layering

end Flowchart
