import Flowchart.Layering.Digraph

/-!
# Breaking Cycles

Layers need a graph without cycles. Where there is one, the vertices are put
into a sequence in which few arcs point backwards, and those are turned round.
The sequence is found greedily: sinks go to its end, then sources to its front,
then one vertex with the greatest surplus of outgoing arcs to its front, and
so on. Of several candidates the one that was touched last is taken.

## Main definitions

* `Digraph.topological`: The vertices by a depth first search.
* `Greedy`: The search for a sequence.
* `Digraph.acyclic`: The graph with its backward arcs turned round.
-/

namespace Flowchart

namespace Layering

namespace Digraph

/-- The vertices finished by a depth first search from `v`, the last finished
    in front. The newest arc of a vertex is followed last. -/
def visit (g : Digraph) : Nat → Array Bool × List Nat → Nat → Array Bool × List Nat
  | 0, found, _ => found
  | fuel + 1, (seen, done), v =>
      if seen.getD v true then (seen, done)
      else
        let (seen, done) :=
          (g.successors v).reverse.foldl (g.visit fuel) (seen.setIfInBounds v true, done)
        (seen, v :: done)

/-- The vertices in an order in which arcs point forwards, if there is one. -/
def topological (g : Digraph) : List Nat :=
  (g.vertices.foldl (g.visit (g.order + 1)) (Array.replicate g.order false, [])).2

/-- The place of each vertex in a list. -/
def places (order : Nat) (vs : List Nat) : Array Nat :=
  (vs.zipIdx).foldl (fun a (v, i) => a.setIfInBounds v i) (Array.replicate order 0)

/-- The arcs that do not point forwards in a list of the vertices. -/
def backward (g : Digraph) (vs : List Nat) : List Nat :=
  let place := places g.order vs
  g.arcIds.filter fun i => place.getD (g.head i) 0 ≤ place.getD (g.tail i) 0

end Digraph

/-- The state of the search for a sequence with few backward arcs. -/
structure Greedy where
  /-- The vertices without a place, the last touched first. -/
  waiting : List Nat
  outDegree : Array Nat
  inDegree : Array Nat
  /-- The front of the sequence, back to front. -/
  front : List Nat
  /-- The end of the sequence. -/
  back : List Nat

namespace Greedy

/-- The start of the search. The vertices wait in the order in which the arcs
    mention them, the last mentioned in front. -/
def start (g : Digraph) : Greedy :=
  let mentioned := (g.arcIds.flatMap fun i => [g.tail i, g.head i]).eraseDups
  let degree (ends : Nat → List Nat) := (Array.range g.order).map fun v => (ends v).length
  ⟨mentioned.reverse, degree g.outArcs, degree g.inArcs, [], []⟩

/-- Whether no arc leads from a vertex to one that waits. -/
def isSink (s : Greedy) (v : Nat) : Bool := s.outDegree.getD v 0 == 0

/-- Whether no arc leads to a vertex, which is not a sink, from one that
    waits. -/
def isSource (s : Greedy) (v : Nat) : Bool := !s.isSink v && s.inDegree.getD v 0 == 0

/-- How many more arcs leave a vertex than enter it. -/
def surplus (s : Greedy) (v : Nat) : Int := (s.outDegree.getD v 0 : Int) - s.inDegree.getD v 0

/-- The state after a waiting vertex was touched by a change of its degrees. -/
def touch (s : Greedy) (v : Nat) (change : Greedy → Greedy) : Greedy :=
  if v ∈ s.waiting then { change s with waiting := v :: s.waiting.erase v } else s

/-- The state after a vertex was taken: it waits no longer, and its neighbours
    lose an arc each. -/
def take (g : Digraph) (s : Greedy) (v : Nat) : Greedy :=
  let s := { s with waiting := s.waiting.erase v }
  -- The arcs of a vertex count in the order of their numbers.
  let heads := (g.outArcs v).mergeSort.map g.head
  let tails := (g.inArcs v).mergeSort.map g.tail
  let s := heads.foldl (fun s w =>
    s.touch w fun s => { s with inDegree := s.inDegree.modify w (· - 1) }) s
  tails.foldl (fun s w =>
    s.touch w fun s => { s with outDegree := s.outDegree.modify w (· - 1) }) s

/-- The state after every sink was taken. -/
def takeSinks (g : Digraph) : Nat → Greedy → Greedy
  | 0, s => s
  | fuel + 1, s =>
      match s.waiting.find? s.isSink with
      | some v => takeSinks g fuel { s.take g v with back := v :: s.back }
      | none => s

/-- The state after every source was taken. -/
def takeSources (g : Digraph) : Nat → Greedy → Greedy
  | 0, s => s
  | fuel + 1, s =>
      match s.waiting.find? s.isSource with
      | some v => takeSources g fuel { s.take g v with front := v :: s.front }
      | none => s

/-- The state after one vertex with the greatest surplus was taken. -/
def takeSurplus (g : Digraph) (s : Greedy) : Greedy :=
  let inner := s.waiting.filter fun v => !s.isSink v && !s.isSource v
  match (inner.map s.surplus).max? with
  | none => s
  | some most =>
      match inner.find? fun v => s.surplus v == most with
      | some v => { s.take g v with front := v :: s.front }
      | none => s

/-- The state when no vertex waits. Every round takes one at least. -/
def run (g : Digraph) : Nat → Greedy → Greedy
  | 0, s => s
  | fuel + 1, s =>
      if s.waiting.isEmpty then s
      else
        let s := takeSinks g s.waiting.length s
        let s := takeSources g s.waiting.length s
        run g fuel (takeSurplus g s)

/-- A sequence of the vertices in which few arcs point backwards. -/
def sequence (g : Digraph) : List Nat :=
  let s := run g (g.order + 1) (start g)
  s.front.reverse ++ s.back

end Greedy

/-- The graph with its backward arcs turned round, if it has a cycle. -/
def Digraph.acyclic (g : Digraph) : Digraph :=
  if (g.backward g.topological).isEmpty then g
  else (g.backward (Greedy.sequence g)).foldl (fun g i =>
    (g.addArc (g.head i) (g.tail i)).removeArc i) g

end Layering

end Flowchart
