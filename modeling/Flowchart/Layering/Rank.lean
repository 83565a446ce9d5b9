import Flowchart.Layering.Acyclic

/-!
# Ranks

Every vertex gets a rank so that arcs go from a lower to a higher one and are
short in total. The search is a network simplex. It starts from a spanning tree
of tight arcs, which span one rank each, and exchanges a tree arc whose cut
value is negative for the tightest arc that leads back over the cut. Cut values
and the numbering of the tree by a walk are recomputed only where an exchange
has changed them.

No bound on the number of exchanges is known that would be small, so the search
is given a budget, and a search that exceeds it is reported as unfinished.

## Main definitions

* `Ranking`: Ranks together with a spanning tree.
* `Ranking.feasible`: The first ranks, with a tree of tight arcs.
* `Ranking.exchange`: One exchange of tree arcs.
* `Digraph.ranks`: The ranks of a graph without cycles.
-/

namespace Flowchart

namespace Layering

/-- Ranks, and the spanning tree that the search holds. -/
structure Ranking where
  rank : Array Int
  /-- Which arcs belong to the tree. -/
  tree : Array Bool
  /-- Which vertices the tree has reached. -/
  reached : Array Bool
  /-- The cut values that are known. -/
  cut : Array (Option Int)
  /-- The least number in the part of the tree below a vertex. -/
  low : Array Int
  /-- The number of a vertex in a walk of the tree. -/
  lim : Array Int
  /-- The vertex above a vertex in the tree. -/
  parent : Array (Option Nat)

namespace Ranking

/-- The rank of a vertex. -/
def rankOf (s : Ranking) (v : Nat) : Int := s.rank.getD v 0

/-- Whether an arc belongs to the tree. -/
def inTree (s : Ranking) (i : Nat) : Bool := s.tree.getD i false

/-- Whether the tree has reached a vertex. -/
def hasReached (s : Ranking) (v : Nat) : Bool := s.reached.getD v false

/-- The cut value of an arc, if it is known. -/
def cutOf (s : Ranking) (i : Nat) : Option Int := s.cut.getD i none

/-- The number of a vertex in the walk of the tree. -/
def limOf (s : Ranking) (v : Nat) : Int := s.lim.getD v 0

/-- The least number below a vertex. -/
def lowOf (s : Ranking) (v : Nat) : Int := s.low.getD v 0

/-- The vertex above a vertex. -/
def parentOf (s : Ranking) (v : Nat) : Option Nat := s.parent.getD v none

/-- How many ranks an arc spans beyond the one it needs. -/
def slack (g : Digraph) (s : Ranking) (i : Nat) : Int :=
  s.rankOf (g.head i) - s.rankOf (g.tail i) - 1

/-- The first of the arcs with the least slack. -/
def tightest? (g : Digraph) (s : Ranking) (arcs : List Nat) : Option Nat :=
  arcs.foldl (fun best i =>
    match best with
    | none => some i
    | some b => if s.slack g i < s.slack g b then some i else some b) none

/-! ## The first tree -/

/-- Ranks by the longest path to each vertex, and no tree. -/
def longestPaths (g : Digraph) : Ranking :=
  let rank := g.topological.foldl (fun (rank : Array Int) v =>
    match ((g.predecessors v).map fun w => rank.getD w 0 + 1).max? with
    | some r => rank.setIfInBounds v r
    | none => rank) (Array.replicate g.order 0)
  { rank := rank
    tree := Array.replicate g.extent false
    reached := Array.replicate g.order false
    cut := Array.replicate g.extent none
    low := Array.replicate g.order 0
    lim := Array.replicate g.order 0
    parent := Array.replicate g.order none }

/-- A walk that extends the tree: its state, the arcs it has looked at, and
    the number of vertices it has come to. -/
structure Growth where
  state : Ranking
  seen : Array Bool
  count : Nat

/-- The growth of the tree from a vertex, over tree arcs and tight arcs to
    vertices that the tree has not reached. -/
def grow (g : Digraph) : Nat → Nat → Growth → Growth
  | 0, _, w => w
  | fuel + 1, v, w =>
      let w := { w with
        state := { w.state with reached := w.state.reached.setIfInBounds v true }
        count := w.count + 1 }
      (g.around v).foldl (fun w (i, other) =>
        if w.seen.getD i true then w
        else
          let w := { w with seen := w.seen.setIfInBounds i true }
          if w.state.inTree i then grow g fuel other w
          else if w.state.slack g i = 0 ∧ ¬ w.state.hasReached other then
            grow g fuel other
              { w with state := { w.state with tree := w.state.tree.setIfInBounds i true } }
          else w) w

/-- Ranks with a spanning tree of tight arcs. While the tree does not span the
    graph, its vertices are shifted until one more arc is tight. -/
def feasible (g : Digraph) (root : Nat) : Nat → Ranking → Except Fault Ranking
  | 0, _ => .error .unfinished
  | fuel + 1, s =>
      let w := grow g (g.extent + 1) root ⟨s, Array.replicate g.extent false, 0⟩
      let s := w.state
      if g.vertices.length ≤ w.count then .ok s
      else
        let crossing := g.arcIds.filter fun i =>
          !s.inTree i && s.hasReached (g.tail i) != s.hasReached (g.head i)
        match s.tightest? g crossing with
        | none => .error .broken
        | some i =>
            let delta := if s.hasReached (g.head i) then -s.slack g i else s.slack g i
            let rank := g.vertices.foldl (fun rank v =>
              if s.hasReached v then rank.modify v (· + delta) else rank) s.rank
            feasible g root fuel { s with rank := rank }

/-! ## Cut values -/

/-- What arcs on one side of a vertex add to a cut value, and the other end of
    the one tree arc among them whose cut value is not known. Nothing, if
    there is more than one such arc. -/
def side (g : Digraph) (s : Ranking) (v : Nat) (arcs : List Nat) : Option (Int × Option Nat) :=
  arcs.foldlM (fun (total, missing) i =>
    if !s.inTree i then some (total + 1, missing)
    else match s.cutOf i, missing with
      | some c, missing => some (total + 1 - c, missing)
      | none, none => some (total, some (g.otherEnd i v))
      | none, some _ => none) (0, none)

/-- The ranking with the cut value of the only arc at `v` that lacks one, and
    the other end of that arc. -/
def cutAt? (g : Digraph) (s : Ranking) (v : Nat) : Option (Ranking × Nat) :=
  match s.side g v (g.inArcs v), s.side g v (g.outArcs v) with
  | some (a, some w), some (b, none) | some (a, none), some (b, some w) =>
      match g.arcBetween? v w with
      | some i => some ({ s with cut := s.cut.setIfInBounds i (some (1 + b - a)) }, w)
      | none =>
          match g.arcBetween? w v with
          | some i => some ({ s with cut := s.cut.setIfInBounds i (some (1 + a - b)) }, w)
          | none => none
  | _, _ => none

/-- The cut values that follow from the vertices of a queue. -/
def cutValues (g : Digraph) : Nat → List Nat → Ranking → Except Fault Ranking
  | _, [], s => .ok s
  | 0, _ :: _, _ => .error .unfinished
  | fuel + 1, v :: queue, s =>
      match s.cutAt? g v with
      | some (s, w) => cutValues g fuel (queue ++ [w]) s
      | none => cutValues g fuel queue s

/-- More rounds than cut values can take when they come to an end. -/
def cutBudget (g : Digraph) : Nat := Nat.pow (g.order + g.extent + 2) 2

/-! ## Numbering the tree -/

/-- A walk that numbers the tree: its state, the next number, and the vertices
    it has come to. -/
structure Walk where
  state : Ranking
  next : Int
  seen : Array Bool

/-- The numbering of the part of the tree at `v`, below `parent`. -/
def number (g : Digraph) : Nat → Nat → Option Nat → Walk → Walk
  | 0, _, _, w => w
  | fuel + 1, v, parent, w =>
      let w := { w with
        seen := w.seen.setIfInBounds v true
        state := { w.state with
          lim := w.state.lim.setIfInBounds v w.next
          parent := w.state.parent.setIfInBounds v parent } }
      let w := (g.around v).foldl (fun w (i, other) =>
        if !w.seen.getD other true && w.state.inTree i then
          number g fuel other (some v) { w with next := w.next - 1 }
        else w) w
      { w with state := { w.state with low := w.state.low.setIfInBounds v w.next } }

/-- The ranking with the part of the tree at `v` numbered down from `top`. -/
def numbered (g : Digraph) (v : Nat) (parent : Option Nat) (top : Int) (s : Ranking) : Ranking :=
  let seen := match parent with
    | some p => (Array.replicate g.order false).setIfInBounds p true
    | none => Array.replicate g.order false
  (number g (g.order + 1) v parent ⟨s, top, seen⟩).state

/-! ## Exchanges -/

/-- Whether a number lies in the part of the tree below a vertex. -/
def below (s : Ranking) (v : Nat) (n : Int) : Bool := s.lowOf v ≤ n && n ≤ s.limOf v

/-- The tightest arc that leads back over the cut of a tree arc. -/
def entering? (g : Digraph) (s : Ranking) (leaving : Nat) : Option Nat :=
  let rootAhead : Bool := s.limOf (g.tail leaving) < s.limOf (g.head leaving)
  let v := if rootAhead then g.tail leaving else g.head leaving
  s.tightest? g <| g.arcIds.filter fun i =>
    !s.inTree i && s.below v (s.limOf (g.head i)) == rootAhead &&
      s.below v (s.limOf (g.tail i)) != rootAhead

/-- The ranking without the cut value of the arc above a vertex. -/
def forget (g : Digraph) (s : Ranking) (v parent : Nat) : Ranking :=
  match g.link? v parent with
  | some i => { s with cut := s.cut.setIfInBounds i none }
  | none => s

/-- The least vertex above both `v` and `w`, going up from `v` at `l`, and the
    ranking without the cut values on the way. -/
def climbToMeet (g : Digraph) (v w : Nat) : Nat → Nat → Ranking → Ranking × Nat
  | 0, l, s => (s, l)
  | fuel + 1, l, s =>
      match s.parentOf l with
      | none => (s, l)
      | some p =>
          let s := s.forget g l p
          if (s.lowOf p ≤ s.limOf v && s.limOf w ≤ s.limOf p) || (s.parentOf p).isNone then (s, p)
          else climbToMeet g v w fuel p s

/-- The ranking without the cut values on the way up from `l` to `top`. -/
def climbTo (g : Digraph) (top : Nat) : Nat → Nat → Ranking → Except Fault Ranking
  | 0, _, _ => .error .unfinished
  | fuel + 1, l, s =>
      if l = top then .ok s
      else match s.parentOf l with
        | none => .error .broken
        | some p => climbTo g top fuel p (s.forget g l p)

/-- The ranking without the cut values that an exchange changes, and the top
    of the part of the tree that it changes. -/
def forgetCuts (g : Digraph) (entering leaving : Nat) (s : Ranking) :
    Except Fault (Ranking × Nat) := do
  let s := { s with cut := s.cut.setIfInBounds leaving none }
  let (tail, head) := (g.tail entering, g.head entering)
  let (v, w) := if s.limOf head < s.limOf tail then (head, tail) else (tail, head)
  let (s, top) := climbToMeet g v w (g.order + 1) v s
  let s ← climbTo g top (g.order + 1) w s
  return (s, top)

/-- The neighbours of a vertex in the tree, with the ranks that tight arcs give
    them. -/
def tightNeighbours (g : Digraph) (s : Ranking) (v : Nat) : List (Nat × Int) :=
  let ahead := (g.outArcs v).filter s.inTree |>.map fun i => (g.head i, s.rankOf v + 1)
  let behind := (g.inArcs v).filter s.inTree |>.map fun i => (g.tail i, s.rankOf v - 1)
  ahead ++ behind

/-- The ranks that the tree gives to the vertices beyond those on a queue. -/
def spread (g : Digraph) : Nat → List Nat → Array Bool → Ranking → Ranking
  | 0, _, _, s => s
  | _, [], _, s => s
  | fuel + 1, v :: queue, seen, s =>
      let (queue, seen, s) := (s.tightNeighbours g v).foldl
        (fun (queue, seen, s) (w, r) =>
          if Array.getD seen w true then (queue, seen, s)
          else (queue ++ [w], seen.setIfInBounds w true,
            { s with rank := Array.setIfInBounds s.rank w r })) (queue, seen, s)
      spread g fuel queue seen s

/-- The ranks that make every arc of the tree tight, with the root at zero. -/
def settled (g : Digraph) (root : Nat) (s : Ranking) : Ranking :=
  let seen := (Array.replicate g.order false).setIfInBounds root true
  spread g (g.order + 1) [root] seen { s with rank := s.rank.setIfInBounds root 0 }

/-- The ranking after a tree arc was exchanged for another arc. -/
def exchange (g : Digraph) (root leaving : Nat) (s : Ranking) : Except Fault Ranking := do
  match s.entering? g leaving with
  | none => throw .broken
  | some entering =>
      let s := { s with
        tree := (s.tree.setIfInBounds leaving false).setIfInBounds entering true }
      let (s, top) ← s.forgetCuts g entering leaving
      let s ← cutValues g (cutBudget g) [g.tail leaving] s
      let s := s.numbered g top (s.parentOf top) (s.limOf top)
      return s.settled g root

/-- The ranking after every exchange that helps. -/
def improve (g : Digraph) (root : Nat) : Nat → Ranking → Except Fault Ranking
  | 0, _ => .error .unfinished
  | fuel + 1, s =>
      match g.arcIds.find? fun i => (s.cutOf i).any (· < 0) with
      | none => .ok s
      | some leaving =>
          match s.exchange g root leaving with
          | .ok s => improve g root fuel s
          | .error fault => .error fault

/-- More exchanges than a search takes that comes to an end. -/
def exchangeBudget (g : Digraph) : Nat := 64 * (g.order + 1) * (g.extent + 1) + 1000

end Ranking

/-- The ranks of a graph without cycles, the least of them zero. -/
def Digraph.ranks (g : Digraph) : Except Fault (Array Nat) := do
  let vertices := g.vertices
  let root := vertices.headD 0
  let s ← Ranking.feasible g root (g.order + 1) (Ranking.longestPaths g)
  let leaves := vertices.filter fun v =>
    ((g.inArcs v ++ g.outArcs v).filter s.inTree).length == 1
  let s ← Ranking.cutValues g (Ranking.cutBudget g) leaves s
  let s := s.numbered g root none vertices.length
  let s ← Ranking.improve g root (Ranking.exchangeBudget g) s
  let least := (vertices.map s.rankOf).min?.getD 0
  return s.rank.map fun r => (r - least).toNat

end Layering

end Flowchart
