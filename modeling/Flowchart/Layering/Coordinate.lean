import Flowchart.Layering.Order

/-!
# Coordinates

Every vertex gets a horizontal coordinate. Vertices are aligned with a median
neighbour on the level before, which makes them into blocks that stand straight;
blocks are placed as far to one side as their neighbours allow; and classes of
blocks are shifted towards each other. Doing this from either side and in
either vertical direction gives four placements. They are moved to agree with
the narrowest one, and a vertex gets the mean of its two middle coordinates.

## Main definitions

* `Alignment`: The blocks.
* `Compaction`: The placement of the blocks.
* `Leveled.placement`: One of the four placements.
* `Leveled.coordinates`: The coordinate of each vertex.
-/

namespace Flowchart

namespace Layering

/-- Vertices in blocks. A block is a cycle: each vertex leads to the next one
    below and the last one to the first, which is the root. -/
structure Alignment where
  next : Array Nat
  root : Array Nat

/-- The placement of blocks. The sink of a block names its class. -/
structure Compaction where
  x : Array (Option Float)
  sink : Array Nat
  shift : Array Float

/-- A view of the levels from one of their four sides. -/
structure View where
  levels : Levels
  /-- The neighbours of a vertex on the level before. -/
  before : Nat → List Nat
  place : Array Nat
  row : Array Nat

/-- The distance from a vertex to its neighbours, and of a dummy vertex to
    its. -/
def vertexWidth (dummy : Bool) : Float := if dummy then 1 else 10

namespace View

/-- The place of a vertex in its level. -/
def placeOf (w : View) (v : Nat) : Nat := w.place.getD v 0

/-- The vertex to the left of one that is not the first of its level. -/
def left (w : View) (v : Nat) : Nat :=
  ((w.levels.getD (w.row.getD v 0) [])[w.placeOf v - 1]?).getD v

/-- The vertices in the order of their levels. -/
def vertices (w : View) : List Nat := w.levels.toList.flatten

end View

namespace Alignment

/-- The vertex below in the block. -/
def nextOf (a : Alignment) (v : Nat) : Nat := a.next.getD v v

/-- The first vertex of the block. -/
def rootOf (a : Alignment) (v : Nat) : Nat := a.root.getD v v

/-- The alignment of `v` with the neighbour `u`, if it is not aligned yet and
    `u` stands to the right of every neighbour that was aligned with in its
    level. `bound` counts the places up to the last of those. -/
def join (w : View) (v u : Nat) (s : Alignment × Nat) : Alignment × Nat :=
  let (a, bound) := s
  if a.nextOf v = v ∧ bound ≤ w.placeOf u then
    let root := a.rootOf u
    (⟨(a.next.setIfInBounds u v).setIfInBounds v root, a.root.setIfInBounds v root⟩,
      w.placeOf u + 1)
  else (a, bound)

/-- The alignment of a vertex with one of its median neighbours. -/
def alignVertex (w : View) (s : Alignment × Nat) (v : Nat) : Alignment × Nat :=
  let near := ((w.before v).mergeSort fun a b => w.placeOf a ≤ w.placeOf b).toArray
  if near.isEmpty then s
  else
    let left := near.getD ((near.size + 1) / 2 - 1) 0
    let right := near.getD ((near.size + 2) / 2 - 1) 0
    join w v right (join w v left s)

/-- The blocks of a view. -/
def ofView (order : Nat) (w : View) : Alignment :=
  w.levels.foldl (fun a vs => (vs.foldl (alignVertex w) (a, 0)).1)
    ⟨Array.range order, Array.range order⟩

/-- The vertices of the block at `v` from `u` on, back to front. -/
def follow (a : Alignment) (v : Nat) : Nat → Nat → List Nat → List Nat
  | 0, _, block => block
  | fuel + 1, u, block =>
      let u := a.nextOf u
      if u = v then block else follow a v fuel u (u :: block)

/-- The vertices of a block from its root down. -/
def block (a : Alignment) (root : Nat) : List Nat :=
  (a.follow root a.next.size root [root]).reverse

/-- The width of the block of each vertex. -/
def widths (a : Alignment) (s : Leveled) (vs : List Nat) : Array Float :=
  let widest := vs.foldl (fun (widest : Array Float) v =>
    let width := vertexWidth (s.isDummy v)
    widest.modify (a.rootOf v) fun x => if x < width then width else x)
    (Array.replicate a.next.size 0)
  (Array.range a.next.size).map fun v => widest.getD (a.rootOf v) 0

end Alignment

namespace Compaction

/-- The coordinate of a vertex whose block was placed. -/
def xOf (c : Compaction) (v : Nat) : Float := (c.x.getD v none).getD 0

/-- The class of a vertex. -/
def sinkOf (c : Compaction) (v : Nat) : Nat := c.sink.getD v v

/-- How far a class is shifted. -/
def shiftOf (c : Compaction) (v : Nat) : Float := c.shift.getD v 0

/-- The least distance between two adjacent vertices. -/
def distance (width : Array Float) (v w : Nat) : Float :=
  (width.getD v 0 + width.getD w 0) * 0.5

/-- The placement after a block was placed, and before that the blocks to its
    left. -/
def place (w : View) (a : Alignment) (width : Array Float) : Nat → Compaction → Nat → Compaction
  | 0, c, _ => c
  | fuel + 1, c, b =>
      if (c.x.getD b none).isSome then c
      else
        let block := a.block b
        let c := { c with x := c.x.setIfInBounds b (some 0) }
        let c := block.foldl (fun c v =>
          if w.placeOf v = 0 then c
          else
            let u := a.rootOf (w.left v)
            let c := place w a width fuel c u
            let c := if c.sinkOf b = b then
                { c with sink := c.sink.setIfInBounds b (c.sinkOf u) } else c
            if c.sinkOf b = c.sinkOf u then
              let x := c.xOf u + distance width b u
              if c.xOf b < x then { c with x := c.x.setIfInBounds b (some x) } else c
            else c) c
        block.foldl (fun c v =>
          { c with
            x := c.x.setIfInBounds v (some (c.xOf b))
            sink := c.sink.setIfInBounds v (c.sinkOf b) }) c

/-- The placement after the class of `v` has limited how far the class to its
    left may be shifted. -/
def limit (w : View) (width : Array Float) (c : Compaction) (v : Nat) : Compaction :=
  if w.placeOf v = 0 then c
  else
    let u := w.left v
    let x := c.shiftOf (c.sinkOf v) + (c.xOf v - (c.xOf u + distance width v u))
    if x < c.shiftOf (c.sinkOf u) then { c with shift := c.shift.setIfInBounds (c.sinkOf u) x }
    else c

/-- The placement after the limits along a path through a class, which goes
    down each block and then on to the right. -/
def trail (w : View) (a : Alignment) (width : Array Float) : Nat → Compaction → Nat → Compaction
  | 0, c, _ => c
  | fuel + 1, c, v =>
      let rest := (a.block (a.rootOf v)).dropWhile (· != v) |>.drop 1
      let c := rest.foldl (limit w width) c
      let last := rest.getLast?.getD v
      match (w.levels.getD (w.row.getD last 0) [])[w.placeOf last + 1]? with
      | none => c
      | some u => if c.sinkOf last = c.sinkOf u then trail w a width fuel c u else c

/-- The placement of the blocks of a view. -/
def ofView (s : Leveled) (w : View) : Compaction :=
  let order := s.graph.order
  let a := Alignment.ofView order w
  let width := a.widths s w.vertices
  let start : Compaction :=
    ⟨Array.replicate order none, Array.range order, Array.replicate order (1 / 0)⟩
  let roots := s.graph.vertices.filter fun v => a.rootOf v == v
  let c := roots.foldl (place w a width (order + 1)) start
  w.levels.foldl (fun c vs =>
    match vs with
    | v :: _ =>
        if c.sinkOf v = v then
          let c := if c.shiftOf v == 1 / 0 then
              { c with shift := c.shift.setIfInBounds v 0 } else c
          trail w a width (order + 1) c v
        else c
    | [] => c) c

end Compaction

namespace Leveled

/-- A view of ordered levels. -/
def view (s : Leveled) (levels : Levels) (before : Nat → List Nat) : View :=
  let row := (levels.toList.zipIdx).foldl (fun row (vs, r) =>
    vs.foldl (fun row v => Array.setIfInBounds row v r) row) (Array.replicate s.graph.order 0)
  ⟨levels, before, levels.places s.graph.order, row⟩

/-- The placement as far to the left as one view allows. -/
def placement (s : Leveled) (levels : Levels) (before : Nat → List Nat) : Array Float :=
  let c := Compaction.ofView s (s.view levels before)
  (Array.range s.graph.order).map fun v => c.xOf v + c.shiftOf (c.sinkOf v)

/-- The placements from both sides, for one vertical direction. -/
def bothSides (s : Leveled) (levels : Levels) (before : Nat → List Nat) : List (Array Float) :=
  [s.placement levels before,
    (s.placement (levels.map List.reverse) before).map fun x => -x]

/-- The least and the greatest coordinate of the vertices. -/
def span (vs : List Nat) (x : Array Float) : Float × Float :=
  let xs := vs.map fun v => x.getD v 0
  (xs.tail.foldl (fun a b => if b < a then b else a) (xs.headD 0),
    xs.tail.foldl (fun a b => if a < b then b else a) (xs.headD 0))

/-- The first of the narrowest spans. -/
def narrowest (spans : List (Float × Float)) : Float × Float :=
  spans.tail.foldl (fun a b => if b.2 - b.1 < a.2 - a.1 then b else a) (spans.headD (0, 0))

/-- The mean of the two middle ones of four numbers. -/
def middleMean (xs : List Float) : Float :=
  let sorted := (xs.mergeSort fun a b => !(b < a)).toArray
  (sorted.getD 1 0 + sorted.getD 2 0) / 2

/-- The coordinate of each vertex, the least of them zero. -/
def coordinates (s : Leveled) (levels : Levels) : Array Float :=
  let vs := s.graph.vertices
  let layouts := s.bothSides levels s.graph.predecessors ++
    s.bothSides levels.reverse s.graph.successors
  let spans := layouts.map (span vs)
  let (least, greatest) := narrowest spans
  -- The layouts from the left are moved to agree on the left side, the others on the right.
  let moved := ((layouts.zip spans).zipIdx).map fun ((x, (low, high)), i) =>
    let offset := if i % 2 = 0 then low - least else greatest - high
    x.map (· + offset)
  let mean := (Array.range s.graph.order).map fun v =>
    middleMean (moved.map fun x => x.getD v 0)
  let (low, _) := span vs mean
  mean.map (· - low)

end Leveled

end Layering

end Flowchart
