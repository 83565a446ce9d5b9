import Flowchart.Layering.Level

/-!
# Orders within Levels

The vertices of each level are put into an order in which few arcs cross. The
first order is that of a depth first search. Then the levels are swept,
alternately downwards and upwards, and each is sorted by where its neighbours
on the level before stand: by their median or by their mean. A sweep may be
followed by exchanging adjacent vertices for as long as that saves crossings.
The search ends when four sweeps in a row have not beaten the best order.

## Main definitions

* `Effort`: How sweeps sort, and whether they exchange.
* `crossings`: The number of crossing arcs of an order.
* `Leveled.sweep`: One sweep over the levels.
* `Leveled.exchange`: Exchanging adjacent vertices.
* `Leveled.ordered`: The best order found.
-/

namespace Flowchart

namespace Layering

/-- How much is done about crossings. -/
structure Effort where
  /-- Sort by the median of the neighbours and not by their mean. -/
  median : Bool
  /-- Exchange adjacent vertices after a sweep. -/
  exchange : Bool
deriving DecidableEq, Repr

/-- The vertices of each level in an order. -/
abbrev Levels := Array (List Nat)

namespace Levels

/-- The place of each vertex within its level. -/
def places (order : Nat) (levels : Levels) : Array Nat :=
  levels.foldl (fun a vs => vs.zipIdx.foldl (fun a (v, i) => a.setIfInBounds v i) a)
    (Array.replicate order 0)

end Levels

/-- The sum of a list. -/
def total : List Nat → Nat
  | [] => 0
  | n :: ns => n + total ns

/-- The number of pairs in a list whose first member is greater. -/
def inversions : List Nat → Nat
  | [] => 0
  | a :: rest => (rest.filter (· < a)).length + inversions rest

/-- The middle of a sorted list. Between two middle members it lies nearer to
    the side that is more crowded, and nothing lies in the middle of nothing:
    that is infinitely far to the right. -/
def middle (sorted : Array Nat) : Float :=
  let n := sorted.size
  let m := n / 2
  let item (i : Nat) := sorted.getD i 0
  if n = 0 then 1 / 0
  else if n % 2 = 1 then Float.ofNat (item m)
  else if n = 2 then Float.ofNat (item 0 + item 1) / 2
  else
    let left := item (m - 1) - item 0
    let right := item (n - 1) - item m
    Float.ofNat (item (m - 1) * right + item m * left) / Float.ofNat (left + right)

/-- The mean of a list, or `alone` for an empty one. -/
def mean (alone : Nat) (items : List Nat) : Float :=
  if items.isEmpty then Float.ofNat alone
  else Float.ofNat (total items) / Float.ofNat items.length

namespace Leveled

/-- The order of a depth first search from each vertex in turn. -/
def visit (s : Leveled) : Nat → Array Bool × Levels → Nat → Array Bool × Levels
  | 0, found, _ => found
  | fuel + 1, (seen, levels), v =>
      if seen.getD v true then (seen, levels)
      else (s.graph.successors v).foldl (s.visit fuel)
        (seen.setIfInBounds v true, levels.modify (s.levelOf v) (v :: ·))

/-- The first order. -/
def firstOrder (s : Leveled) : Levels :=
  let start := (Array.replicate s.graph.order false, Array.replicate s.height [])
  (s.graph.vertices.foldl (s.visit (s.graph.order + 1)) start).2.map List.reverse

/-- The number of crossing arcs of an order. -/
def crossings (s : Leveled) (levels : Levels) : Nat :=
  let place := levels.places s.graph.order
  total (levels.toList.dropLast.map fun vs =>
    inversions (vs.flatMap fun v =>
      ((s.graph.successors v).map fun w => place.getD w 0).mergeSort))

/-- The neighbours of a vertex on the level that a sweep has come from. -/
def behind (s : Leveled) (down : Bool) (v : Nat) : List Nat :=
  if down then s.graph.predecessors v else s.graph.successors v

/-- Where a vertex is drawn to by its neighbours on the level behind. -/
def pull (s : Leveled) (effort : Effort) (down : Bool) (place : Array Nat) (v : Nat) : Float :=
  let near := (s.behind down v).map fun w => place.getD w 0
  if effort.median then middle near.mergeSort.toArray else mean (place.getD v 0) near

/-- The levels that a sweep sorts, in their turn. -/
def turns (down : Bool) (levels : Levels) : List Nat :=
  if down then (List.range levels.size).drop 1 else (List.range (levels.size - 1)).reverse

/-- The order after one level was sorted, and the places in it. Two vertices
    cannot be compared if one is drawn nowhere. -/
def sortLevel (s : Leveled) (effort : Effort) (down : Bool) (levels : Levels)
    (place : Array Nat) (r : Nat) : Except Fault (Levels × Array Nat) :=
  let drawn := (levels.getD r []).map fun v => (v, s.pull effort down place v)
  if 1 < drawn.length ∧ drawn.any (fun (_, x) => x.isNaN) then .error .broken
  else
    let vs := (drawn.mergeSort fun a b => !(b.2 < a.2)).map Prod.fst
    .ok (levels.setIfInBounds r vs,
      vs.zipIdx.foldl (fun a (v, i) => Array.setIfInBounds a v i) place)

/-- The order after a sweep over the levels. -/
def sweep (s : Leveled) (effort : Effort) (down : Bool) (levels : Levels) :
    Except Fault Levels := do
  let (levels, _) ← (turns down levels).foldlM (fun (levels, place) r =>
    s.sortLevel effort down levels place r) (levels, levels.places s.graph.order)
  return levels

/-- The crossings between the arcs of `v` and those of `w`, if `v` stands to
    the left of `w`. -/
def crossingsOf (s : Leveled) (place : Array Nat) (v w : Nat) : Nat :=
  let between (near : Nat → List Nat) :=
    total ((near v).map fun a =>
      ((near w).filter fun b => place.getD b 0 < place.getD a 0).length)
  between s.graph.predecessors + between s.graph.successors

/-- One pass over a level from the place `i` on, exchanging adjacent vertices
    where that saves crossings: the level, the places, and whether there was
    an exchange. -/
def exchangeLevel (s : Leveled) : Nat → List Nat → Array Nat → List Nat × Array Nat × Bool
  | i, v :: w :: rest, place =>
      if s.crossingsOf place w v < s.crossingsOf place v w then
        let place := (place.setIfInBounds v (i + 1)).setIfInBounds w i
        let (vs, place, _) := exchangeLevel s (i + 1) (v :: rest) place
        (w :: vs, place, true)
      else
        let (vs, place, later) := exchangeLevel s (i + 1) (w :: rest) place
        (v :: vs, place, later)
  | _, vs, place => (vs, place, false)
termination_by _ vs _ => vs.length

/-- The order after exchanges in all levels, again and again while they help.
    Each round but the last saves a crossing. -/
def exchange (s : Leveled) (down : Bool) : Nat → Levels → Levels
  | 0, levels => levels
  | fuel + 1, levels =>
      let rows := List.range levels.size
      let (levels, _, improved) := (if down then rows else rows.reverse).foldl
        (fun (levels, place, improved) r =>
          let (vs, place, here) := s.exchangeLevel 0 (Array.getD levels r []) place
          (Array.setIfInBounds levels r vs, place, improved || here))
        (levels, levels.places s.graph.order, false)
      if improved then exchange s down fuel levels else levels

/-- The order after a sweep and the exchanges that follow it. -/
def round (s : Leveled) (effort : Effort) (down : Bool) (levels : Levels) :
    Except Fault Levels := do
  let levels ← s.sweep effort down levels
  return if effort.exchange then s.exchange down (s.crossings levels + 1) levels else levels

/-- The best order after rounds, when `left` more may fail to improve on it. -/
def search (s : Leveled) (effort : Effort) (down : Bool) (levels best : Levels)
    (fewest left : Nat) : Except Fault Levels :=
  match s.round effort down levels with
  | .error fault => .error fault
  | .ok levels =>
      if s.crossings levels < fewest then
        search s effort (!down) levels levels (s.crossings levels) 4
      else match left with
        | 0 => .ok best
        | 1 => .ok best
        | left + 2 => search s effort (!down) levels best fewest (left + 1)
termination_by (fewest, left)

/-- The best order found. -/
def ordered (s : Leveled) (effort : Effort) : Except Fault Levels :=
  let first := s.firstOrder
  s.search effort true first first (s.crossings first) 4

end Leveled

end Layering

end Flowchart
