/-!
# Directed Graphs

The graphs that a layering works on. Vertices and arcs have numbers, and a
graph may gain and lose some of both. The number of one that was lost is given
to the next one gained, the most recently lost first, and the arcs at a vertex
are listed from the newest to the oldest. Both orders show in the layering, for
ties are broken by them.

## Main definitions

* `Digraph`: The graph.
* `Digraph.addVertex`, `Digraph.addArc`, `Digraph.removeArc`: Changing it.
* `Digraph.reachable`: The vertices on one side of a set of pairs.
* `Digraph.components`: The connected parts of a set of pairs.
-/

namespace Flowchart

namespace Layering

/-- An arc from its tail to its head. -/
structure Arc where
  tail : Nat
  head : Nat
deriving DecidableEq, Repr, Inhabited

/-- A directed graph. -/
structure Digraph where
  /-- Which vertex numbers are in use. -/
  live : Array Bool
  /-- The arcs, with nothing at a number that is not in use. -/
  arcs : Array (Option Arc)
  /-- The arcs that leave each vertex, the newest first. -/
  outgoing : Array (List Nat)
  /-- The arcs that enter each vertex, the newest first. -/
  incoming : Array (List Nat)
  /-- The vertex numbers to give out again, the next one first. -/
  spareVertices : List Nat
  /-- The arc numbers to give out again, the next one first. -/
  spareArcs : List Nat
deriving Repr

namespace Digraph

/-- One more than the greatest vertex number. -/
def order (g : Digraph) : Nat := g.live.size

/-- One more than the greatest arc number. -/
def extent (g : Digraph) : Nat := g.arcs.size

/-- The vertices in use, in the order of their numbers. -/
def vertices (g : Digraph) : List Nat :=
  (List.range g.order).filter fun v => g.live.getD v false

/-- The arcs in use, in the order of their numbers. -/
def arcIds (g : Digraph) : List Nat :=
  (List.range g.extent).filter fun i => (g.arcs.getD i none).isSome

/-- The arc with a number in use. -/
def arc (g : Digraph) (i : Nat) : Arc := (g.arcs.getD i none).getD default

/-- Where an arc starts. -/
def tail (g : Digraph) (i : Nat) : Nat := (g.arc i).tail

/-- Where an arc ends. -/
def head (g : Digraph) (i : Nat) : Nat := (g.arc i).head

/-- The end of an arc that is not `v`. -/
def otherEnd (g : Digraph) (i v : Nat) : Nat := if g.tail i = v then g.head i else g.tail i

/-- The arcs that leave a vertex, the newest first. -/
def outArcs (g : Digraph) (v : Nat) : List Nat := g.outgoing.getD v []

/-- The arcs that enter a vertex, the newest first. -/
def inArcs (g : Digraph) (v : Nat) : List Nat := g.incoming.getD v []

/-- The heads of the arcs that leave a vertex. -/
def successors (g : Digraph) (v : Nat) : List Nat := (g.outArcs v).map g.head

/-- The tails of the arcs that enter a vertex. -/
def predecessors (g : Digraph) (v : Nat) : List Nat := (g.inArcs v).map g.tail

/-- The arcs at a vertex with their other ends, first those that leave it. -/
def around (g : Digraph) (v : Nat) : List (Nat × Nat) :=
  (g.outArcs v).map (fun i => (i, g.head i)) ++ (g.inArcs v).map (fun i => (i, g.tail i))

/-- The newest arc from one vertex to another. -/
def arcBetween? (g : Digraph) (tail head : Nat) : Option Nat :=
  (g.outArcs tail).find? fun i => g.head i == head

/-- The newest arc between two vertices, one that leaves the first if there is
    any. -/
def link? (g : Digraph) (v w : Nat) : Option Nat :=
  (g.arcBetween? v w).or ((g.inArcs v).find? fun i => g.tail i == w)

/-- The graph with one more vertex, and its number. -/
def addVertex (g : Digraph) : Nat × Digraph :=
  match g.spareVertices with
  | v :: spare => (v, { g with live := g.live.setIfInBounds v true, spareVertices := spare })
  | [] =>
      (g.order,
        { g with
          live := g.live.push true
          outgoing := g.outgoing.push []
          incoming := g.incoming.push [] })

/-- The graph with one more arc. -/
def addArc (g : Digraph) (tail head : Nat) : Digraph :=
  let (i, arcs, spare) := match g.spareArcs with
    | i :: spare => (i, g.arcs.setIfInBounds i (some ⟨tail, head⟩), spare)
    | [] => (g.extent, g.arcs.push (some ⟨tail, head⟩), [])
  { g with
    arcs := arcs
    spareArcs := spare
    outgoing := g.outgoing.modify tail (i :: ·)
    incoming := g.incoming.modify head (i :: ·) }

/-- The graph without an arc. -/
def removeArc (g : Digraph) (i : Nat) : Digraph :=
  { g with
    arcs := g.arcs.setIfInBounds i none
    spareArcs := i :: g.spareArcs
    outgoing := g.outgoing.modify (g.tail i) (·.erase i)
    incoming := g.incoming.modify (g.head i) (·.erase i) }

/-- The graph of those pairs that start at a member. A pair that does not
    keeps its number spare, and so does a vertex that is no member. -/
def ofPairs (order : Nat) (member : Nat → Bool) (pairs : List (Nat × Nat)) : Digraph :=
  let bare : Digraph :=
    { live := (Array.range order).map member
      arcs := #[]
      outgoing := Array.replicate order []
      incoming := Array.replicate order []
      spareVertices := ((List.range order).filter fun v => !member v).reverse
      spareArcs := [] }
  pairs.foldl (fun g (tail, head) =>
    if member tail then
      { g with
        arcs := g.arcs.push (some ⟨tail, head⟩)
        outgoing := g.outgoing.modify tail (g.extent :: ·)
        incoming := g.incoming.modify head (g.extent :: ·) }
    else { g with arcs := g.arcs.push none, spareArcs := g.extent :: g.spareArcs }) bare

/-- The marks of the vertices that pairs connect with those on the stack, each
    of which is marked already. A vertex is put on the stack once. -/
def reachable (neighbours : Nat → List Nat) : Nat → List Nat → Array Bool → Array Bool
  | 0, _, marks => marks
  | _, [], marks => marks
  | fuel + 1, v :: stack, marks =>
      let (stack, marks) := (neighbours v).foldl (fun (stack, marks) w =>
        if marks.getD w true then (stack, marks)
        else (w :: stack, marks.setIfInBounds w true)) (stack, marks)
      reachable neighbours fuel stack marks

/-- The connected parts of a set of pairs over the vertices below `order`, each
    given by marks, in the order of their least vertices. -/
def components (order : Nat) (pairs : List (Nat × Nat)) : List (Array Bool) :=
  let adjacent := pairs.foldl (fun (a : Array (List Nat)) (v, w) =>
    (a.modify v (w :: ·)).modify w (v :: ·)) (Array.replicate order [])
  let (parts, _) := (List.range order).foldl (fun (parts, seen) v =>
    if Array.getD seen v true then (parts, seen)
    else
      let start := (Array.replicate order false).setIfInBounds v true
      let part := reachable (adjacent.getD · []) order [v] start
      (part :: parts, Array.zipWith or seen part)) ([], Array.replicate order false)
  parts.reverse

end Digraph

/-- A layering broke off, with a text or without. -/
structure Fault where
  text : Option String
deriving DecidableEq, Repr

namespace Fault

/-- A step met a state in which it cannot go on. -/
def broken : Fault := ⟨some "the search met a state in which it cannot go on"⟩

/-- The search for the best ranks took more steps than any that comes to an
    end. It is broken off like any other. -/
def unfinished : Fault := ⟨some "the search did not come to an end"⟩

end Fault

end Layering

end Flowchart
