import Flowchart.Engine.Numbering
import Flowchart.Layering.Basic

/-!
# Slots

A slot is a layer and the middle of a box on the horizontal axis. The parts of
a layering stand side by side, in the order of their first boxes, and each
keeps the columns that the layering gave it. A column is as wide as the widest
free box. Free boxes without a link to another stand on the top layer, to the
right of all parts.

A layering says how high a vertex stands, but not which layer that is, nor
which way is down. Heights that nearly agree are one layer, and the layers are
counted in the direction in which most links point.

## Main definitions

* `Slot`: A layer and a center.
* `ranks`: The layers of one part.
* `Slots.ofRequest`: The slot of every free box.
-/

namespace Flowchart

namespace Engine

/-- A layer, counted from the top, and the middle of a box. -/
structure Slot where
  rank : Nat
  center : Float32
deriving DecidableEq

/-- A box where a layering put it. -/
structure Seat where
  place : Nat
  x : Float
  y : Float

/-! ## Layers of a part -/

/-- The distance below which two heights are the same layer. -/
def layerEpsilon : Float := 0.001

/-- Whether two heights are the same layer. -/
def sameLayer (a b : Float) : Bool := (a - b).abs < layerEpsilon

/-- The heights of a sorted list without those that are near the one kept
    before them. -/
def distinctFrom (kept : Float) : List Float → List Float
  | [] => []
  | y :: ys => if sameLayer y kept then distinctFrom kept ys else y :: distinctFrom y ys

/-- The heights of the layers, in increasing order. -/
def levels (ys : List Float) : List Float :=
  match ys.mergeSort Double.totalLe with
  | [] => []
  | y :: ys => y :: distinctFrom y ys

/-- The number of the layer at a height. -/
def levelOf (levels : List Float) (y : Float) : Nat :=
  (levels.findIdx? fun level => sameLayer level y).getD 0

/-- The layer of a box, if the part holds it. -/
def rankOf? (ranked : List (Nat × Nat)) (place : Nat) : Option Nat :=
  (ranked.reverse.find? fun (p, _) => p == place).map Prod.snd

/-- How many links lead down, and how many up, between the boxes of a part. -/
def directions (ranked : List (Nat × Nat)) (links : List Ends) : Nat × Nat :=
  links.foldl (fun (down, up) (source, target) =>
    match rankOf? ranked source, rankOf? ranked target with
    | some s, some t =>
        if s < t then (down + 1, up) else if t < s then (down, up + 1) else (down, up)
    | _, _ => (down, up)) (0, 0)

/-- The layer of each box of a part, the top layer first. The layers are
    counted so that most links lead down. -/
def ranks (seats : List Seat) (links : List Ends) : List Nat :=
  let levels := levels (seats.map Seat.y)
  let raw := seats.map fun seat => levelOf levels seat.y
  let (down, up) := directions ((seats.map Seat.place).zip raw) links
  if down < up then raw.map fun rank => levels.length - 1 - rank else raw

/-! ## Parts side by side -/

/-- The distances that slots are made of. -/
structure Measure where
  /-- The width of the widest free box. -/
  widest : Float32
  spacing : Float32

namespace Measure

/-- The measure of a request. -/
def ofRequest (r : Request) (options : Options) : Measure :=
  let widths := (r.items.filter fun item => item.fixed.isNone).map fun item => item.size.width
  ⟨widths.foldl Single.max 0, options.nodeSpacing⟩

/-- The distance between two columns. -/
def column (m : Measure) : Float32 := m.widest + m.spacing

/-- The middle of a column of a part that starts at `left`. -/
def center (m : Measure) (left column : Float32) : Float32 :=
  left + column * m.column + m.widest / 2

/-- Where the part after one starts that starts at `left` and has a last
    column. -/
def next (m : Measure) (left last : Float32) : Float32 :=
  left + (last * m.column + m.widest + m.spacing)

end Measure

/-- The slots of the boxes at their places, where they have one. -/
abbrev Slots := Array (Option Slot)

namespace Slots

/-- The slot of the box at a place. -/
def slotOf (slots : Slots) (i : Nat) : Option Slot := slots.getD i none

/-- The columns of a part, counted from its leftmost box. -/
def columns (seats : List Seat) : List Float32 :=
  let least := seats.foldl (fun least seat => if seat.x < least then seat.x else least) (1 / 0)
  seats.map fun seat => Single.ofDouble ((seat.x - least) / Layering.spacing)

/-- The slots after a part that starts at `left`, and where the next part
    starts. -/
def addPart (m : Measure) (links : List Ends) (state : Slots × Float32) (seats : List Seat) :
    Slots × Float32 :=
  let (slots, left) := state
  let columns := columns seats
  let slots := ((seats.zip (ranks seats links)).zip columns).foldl
    (fun slots ((seat, rank), column) =>
      Array.setIfInBounds slots seat.place (some ⟨rank, m.center left column⟩)) slots
  (slots, m.next left (columns.foldl Single.max 0))

/-- The boxes of a part of a layering, by their places. -/
def seats (members : List Nat) (spots : List Layering.Spot) : List Seat :=
  spots.filterMap fun spot => (members[spot.vertex]?).map fun place => ⟨place, spot.x, spot.y⟩

/-- The place of the first box of a part. -/
def first (seats : List Seat) : Nat := ((seats.map Seat.place).min?).getD 0

/-- The parts of a layering that hold a box, in the order of their first
    boxes. -/
def parts (members : List Nat) (layers : List (List Layering.Spot)) : List (List Seat) :=
  ((layers.map (seats members)).filter fun seats => !seats.isEmpty).mergeSort
    fun a b => first a ≤ first b

/-- How much a layering does about crossings: medians take more patience than
    exchanges. -/
def effort (options : Options) : Layering.Effort :=
  ⟨5 ≤ options.thoroughness, 0 < options.thoroughness⟩

/-- The parts of a request, as a layering places them. A layering that breaks
    off is a crash of its own, with the text that it leaves. -/
def partsOf (layering : Layering) (numbering : Numbering) (options : Options) :
    Except Failure (List (List Seat)) :=
  if numbering.arcs.isEmpty then .ok []
  else match layering (effort options) numbering.arcs with
    | .ok [] => .error (.failed "rust-sugiyama returned empty layout results")
    | .ok layers => .ok (parts numbering.members layers)
    | .error fault => .error (.ofCrash fault.text)

/-- The slots after the boxes without a link to another, which stand on the
    top layer from `left` on. A box that took part in the layering must have
    been placed by it. -/
def addAlone (r : Request) (members : List Nat) (spacing : Float32) :
    List (Item × Nat) → Slots × Float32 → Except Failure Slots
  | [], (slots, _) => .ok slots
  | (item, i) :: rest, (slots, left) =>
      if (slotOf slots i).isSome || r.isFixed i then
        addAlone r members spacing rest (slots, left)
      else if i ∈ members then .error (.missingNode item.id)
      else
        let width := item.size.width
        addAlone r members spacing rest
          (slots.setIfInBounds i (some ⟨0, left + width / 2⟩), left + (width + spacing))

/-- The slot of every free box. A fixed box has none. -/
def ofRequest (layering : Layering) (r : Request) (links : List Ends) (options : Options) :
    Except Failure Slots := do
  let m := Measure.ofRequest r options
  let numbering := Numbering.ofLinks r.isFixed links
  let parts ← partsOf layering numbering options
  let start : Slots := Array.replicate r.items.length none
  addAlone r numbering.members options.nodeSpacing r.items.zipIdx
    (parts.foldl (addPart m links) (start, options.padding))

end Slots

end Engine

end Flowchart
