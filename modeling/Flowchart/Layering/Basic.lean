import Flowchart.Layering.Coordinate

/-!
# Layering

A layering of a set of arcs places the vertices that they connect: in layers,
so that arcs lead from one layer to a later one, and across each layer so that
few arcs cross and most stand straight. Each connected part is placed by
itself.

The functions that use a layering take it as a value, and `Layering.standard`
is the one that is used in the end. What else they need to know is only how
far apart its vertices stand.

## Main definitions

* `Layering.Spot`: Where a vertex was placed.
* `Layering`: Any way of placing the vertices of a set of arcs.
* `Layering.standard`: The layering described above.
-/

namespace Flowchart

namespace Layering

/-- Where a vertex was placed. -/
structure Spot where
  vertex : Nat
  x : Float
  y : Float

/-- The distance between adjacent vertices of a layer, and between adjacent
    layers. -/
def spacing : Float := 10

/-- The spots of one connected part. -/
def part (effort : Effort) (g : Digraph) : Except Fault (List Spot) := do
  let g := g.acyclic
  let s := Leveled.ofRanks g (← g.ranks)
  let levels ← s.ordered effort
  let x := s.coordinates levels
  return (s.graph.vertices.filter fun v => !s.isDummy v).map fun v =>
    ⟨v, x.getD v 0, spacing * Float.ofNat (s.levelOf v)⟩

end Layering

/-- A way of placing the vertices of a list of arcs, part by part. -/
abbrev Layering :=
  Layering.Effort → List (Nat × Nat) → Except Layering.Fault (List (List Layering.Spot))

namespace Layering

/-- One more than the greatest vertex of a list of arcs. -/
def orderOf (arcs : List (Nat × Nat)) : Nat :=
  arcs.foldl (fun n (v, w) => max n (max v w + 1)) 0

/-- The layering by network simplex ranks, median or mean orders, and aligned
    blocks. -/
def standard : Layering := fun effort arcs =>
  let order := orderOf arcs
  (Digraph.components order arcs).mapM fun member =>
    part effort (.ofPairs order (member.getD · false) arcs)

end Layering

end Flowchart
