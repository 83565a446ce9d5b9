import Flowchart.Engine.Slot

/-!
# Keeping Clear of Fixed Boxes

Fixed boxes may stand anywhere, also where a free box was to go. Each layer is
swept from left to right: a box is moved to the right until it overlaps no
fixed box, and at least so far that it keeps its distance from the box before
it. A box only ever moves past the right side of what blocks it, so nothing
blocks it twice, and the search is over when every fixed box has blocked it.

## Main definitions

* `Sweep.push`: A box moved clear of fixed ones.
* `Sweep.layer`: The boxes of a layer after a sweep.
* `Sweep.clear`: The positions of all boxes after every layer was swept.
-/

namespace Flowchart

namespace Engine

namespace Sweep

/-- A free box of a layer: its place in the list of boxes, and where it is. -/
structure Mover where
  place : Nat
  position : Point
  size : Size
deriving DecidableEq

/-- Whether a fixed box blocks a box of a size at a position. -/
def blocks (size : Size) (x y : Float32) (fixed : Box) : Bool :=
  (Box.ofTopLeft ⟨x, y⟩ size).meets fixed

/-- The horizontal position of a box moved clear of fixed ones. After a box
    has blocked it, it need not be looked at again. -/
def push (spacing : Float32) (size : Size) (y : Float32) (fixed : List Box) (x : Float32) :
    Float32 :=
  match _h : fixed.find? (blocks size x y) with
  | none => x
  | some blocker => push spacing size y (fixed.erase blocker) (blocker.maxX + spacing)
termination_by fixed.length
decreasing_by
  have := List.length_erase_of_mem (List.mem_of_find?_eq_some _h)
  have := List.length_pos_of_mem (List.mem_of_find?_eq_some _h)
  omega

/-- The boxes of a layer after a sweep. No box may start to the left of
    `cursor`. -/
def layer (spacing : Float32) (fixed : List Box) : Float32 → List Mover → List Mover
  | _, [] => []
  | cursor, m :: ms =>
      let x := push spacing m.size m.position.y fixed (Single.max m.position.x cursor)
      { m with position := ⟨x, m.position.y⟩ } ::
        layer spacing fixed (x + m.size.width + spacing) ms

/-- The boxes of a layer from left to right. -/
def sorted (ms : List Mover) : List Mover :=
  ms.mergeSort fun a b => Single.key a.position.x ≤ Single.key b.position.x

/-- The fixed boxes. -/
def fixedBoxes (r : Request) : List Box :=
  r.items.filterMap fun item => item.fixed.map fun corner => .ofTopLeft corner item.size

/-- The free boxes of a layer. -/
def members (r : Request) (slots : Slots) (positions : List Point) (rank : Nat) : List Mover :=
  ((r.items.zip positions).zipIdx).filterMap fun ((item, position), i) =>
    match slots.slotOf i with
    | some slot => if slot.rank = rank then some ⟨i, position, item.size⟩ else none
    | none => none

/-- The number of layers. -/
def height (slots : Slots) : Nat :=
  slots.foldl (fun n slot =>
    match slot with
    | some slot => max n (slot.rank + 1)
    | none => n) 0

/-- The positions of all boxes after every layer was swept. Without a fixed box
    there is nothing to keep clear of. -/
def clear (r : Request) (slots : Slots) (spacing : Float32) (positions : List Point) :
    List Point :=
  let fixed := fixedBoxes r
  if fixed.isEmpty then positions
  else
    let spacing := Single.max spacing 0
    let moved := (List.range (height slots)).flatMap fun rank =>
      layer spacing fixed Single.negInfinity (sorted (members r slots positions rank))
    moved.foldl (fun ps m => ps.set m.place m.position) positions

end Sweep

end Engine

end Flowchart
