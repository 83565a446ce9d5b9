import Flowchart.Geometry
import Flowchart.Proofs.Single.Middle

/-!
# The Strip Between Two Boxes

A box has four sides, and what is true of one of them is true of the others when
the drawing is turned. So a direction is named by the side that it leaves a box
by, and everything else is told along that direction: where a side is, where a
point is, and which of two places comes first.

Two boxes that face each other leave a strip between them. It is closed, so it
has the two sides in it, but nothing of what the boxes hold inside. And it is as
wide as the plane, so whoever goes straight from one point of it to another does
not leave it.

A coordinate that is not a number comes before nothing. A box with such a
coordinate is nowhere, and it meets no other box for that reason alone.

## Main definitions

* `Side.Before`: The order of places in the direction of a side.
* `Box.place`, `Box.middle`: Where a side is, and the point halfway along it.
* `Box.Holds`: A point is inside a box, and not just on a side of it.
* `Box.Apart`: Two boxes are somewhere and do not meet.
* `Side.Strip`: What is between a side of a box and the opposite side of another.

## Theorems

* `Box.definite_of_size`: A box of a finite size is somewhere.
* `Box.Apart.exists_faces`: Boxes that are apart face each other.
* `Side.Before.middle`: Halfway between two places is between them.
* `Side.Strip.of_between`: A straight way stays in the strip.
* `Side.Strip.not_holds`: Neither box holds a point of the strip.
-/

namespace Flowchart

/-- A side of a box. -/
inductive Side where
  | top
  | bottom
  | left
  | right
deriving DecidableEq, Repr

/-- The side at the other end of a box. -/
def Side.opposite : Side → Side
  | top => bottom
  | bottom => top
  | left => right
  | right => left

/-- In the direction of a side the second place does not come before the first. -/
def Side.Before : Side → Float32 → Float32 → Prop
  | top, a, b => b ≤ a
  | bottom, a, b => a ≤ b
  | left, a, b => b ≤ a
  | right, a, b => a ≤ b

/-- Where a point is in the direction of a side. -/
def Point.along (p : Point) : Side → Float32
  | .top => p.y
  | .bottom => p.y
  | .left => p.x
  | .right => p.x

/-- A point is on the straight way between two points that have a coordinate in
    common: neither of its coordinates is beyond theirs. -/
def Point.Between (a b p : Point) : Prop :=
  (a.x ≤ p.x ∧ p.x ≤ b.x ∨ b.x ≤ p.x ∧ p.x ≤ a.x) ∧
    (a.y ≤ p.y ∧ p.y ≤ b.y ∨ b.y ≤ p.y ∧ p.y ≤ a.y)

namespace Box

/-- Where a side of a box is. -/
def place (b : Box) : Side → Float32
  | .top => b.minY
  | .bottom => b.maxY
  | .left => b.minX
  | .right => b.maxX

/-- The point halfway along a side of a box. -/
def middle (b : Box) : Side → Point
  | .top => ⟨(b.minX + b.maxX) / 2, b.minY⟩
  | .bottom => ⟨(b.minX + b.maxX) / 2, b.maxY⟩
  | .left => ⟨b.minX, (b.minY + b.maxY) / 2⟩
  | .right => ⟨b.maxX, (b.minY + b.maxY) / 2⟩

/-- A point is inside a box, and not just on a side of it. -/
def Holds (b : Box) (p : Point) : Prop := b.minX < p.x ∧ p.x < b.maxX ∧ b.minY < p.y ∧ p.y < b.maxY

/-- A box is somewhere: all its coordinates are numbers. -/
structure Definite (b : Box) : Prop where
  minX : b.minX.isNaN = false
  minY : b.minY.isNaN = false
  maxX : b.maxX.isNaN = false
  maxY : b.maxY.isNaN = false

/-- Two boxes are somewhere and do not meet. -/
structure Apart (a b : Box) : Prop where
  left : a.Definite
  right : b.Definite
  clear : a.meets b = false

/-- A box of a finite size is somewhere. -/
theorem definite_of_size {b : Box} (hwidth : b.size.width.isFinite = true)
    (hheight : b.size.height.isFinite = true) : b.Definite := by
  rcases Single.isFinite_of_sub hwidth with ⟨hmaxX, hminX⟩
  rcases Single.isFinite_of_sub hheight with ⟨hmaxY, hminY⟩
  exact ⟨Single.isNaN_of_isFinite hminX, Single.isNaN_of_isFinite hminY,
    Single.isNaN_of_isFinite hmaxX, Single.isNaN_of_isFinite hmaxY⟩

@[simp] theorem along_middle (b : Box) (side : Side) :
    (b.middle side).along side = b.place side := by
  cases side <;> rfl

@[simp] theorem along_middle_opposite (b : Box) (side : Side) :
    (b.middle side.opposite).along side = b.place side.opposite := by
  cases side <;> rfl

/-- Boxes that are apart face each other with one side or another. -/
theorem Apart.exists_faces {a b : Box} (h : a.Apart b) :
    ∃ side : Side, side.Before (a.place side) (b.place side.opposite) := by
  by_contra hnone
  have hmeets : a.meets b = true := by
    unfold meets
    simp only [Bool.and_eq_true, decide_eq_true_iff]
    refine ⟨⟨⟨?_, ?_⟩, ?_⟩, ?_⟩ <;> by_contra hlt
    · exact hnone ⟨.left, Single.le_of_not_lt h.left.minX h.right.maxX hlt⟩
    · exact hnone ⟨.right, Single.le_of_not_lt h.right.minX h.left.maxX hlt⟩
    · exact hnone ⟨.top, Single.le_of_not_lt h.left.minY h.right.maxY hlt⟩
    · exact hnone ⟨.bottom, Single.le_of_not_lt h.right.minY h.left.maxY hlt⟩
  rw [h.clear] at hmeets
  exact Bool.false_ne_true hmeets

end Box

namespace Side

variable {side : Side} {a b c : Float32}

theorem Before.trans (hab : side.Before a b) (hbc : side.Before b c) : side.Before a c := by
  cases side with
  | top => exact Single.le_trans hbc hab
  | bottom => exact Single.le_trans hab hbc
  | left => exact Single.le_trans hbc hab
  | right => exact Single.le_trans hab hbc

/-- Places that are in order are numbers, and so each of them is in order with
    itself. -/
theorem Before.refl (h : side.Before a b) : side.Before a a ∧ side.Before b b := by
  have hrefl : ∀ {x y : Float32}, x ≤ y → x ≤ x ∧ y ≤ y := by
    intro x y hxy
    rw [Single.le_iff] at hxy
    exact ⟨Single.le_refl hxy.1, Single.le_refl hxy.2.1⟩
  cases side with
  | top => exact (hrefl h).symm
  | bottom => exact hrefl h
  | left => exact (hrefl h).symm
  | right => exact hrefl h

/-- Halfway between two places is between them. -/
theorem Before.middle (h : side.Before a b) (hsum : (a + b).isFinite = true) :
    side.Before a ((a + b) / 2) ∧ side.Before ((a + b) / 2) b := by
  rcases h.refl with ⟨ha, hb⟩
  cases side with
  | top => exact ⟨Single.midpoint_le hsum ha h, Single.le_midpoint hsum h hb⟩
  | bottom => exact ⟨Single.le_midpoint hsum ha h, Single.midpoint_le hsum h hb⟩
  | left => exact ⟨Single.midpoint_le hsum ha h, Single.le_midpoint hsum h hb⟩
  | right => exact ⟨Single.le_midpoint hsum ha h, Single.midpoint_le hsum h hb⟩

/-- What is between a side of a box and the opposite side of another, both sides
    included. -/
structure Strip (side : Side) (source target : Box) (p : Point) : Prop where
  past : side.Before (source.place side) (p.along side)
  short : side.Before (p.along side) (target.place side.opposite)

variable {source target : Box} {p q r : Point}

/-- On the straight way a place is between the places of both ends. -/
theorem before_of_between (side : Side) (h : p.Between q r) :
    side.Before (p.along side) (r.along side) ∧ side.Before (r.along side) (q.along side) ∨
      side.Before (q.along side) (r.along side) ∧ side.Before (r.along side) (p.along side) := by
  cases side with
  | top => exact h.2.symm.imp And.symm And.symm
  | bottom => exact h.2
  | left => exact h.1.symm.imp And.symm And.symm
  | right => exact h.1

/-- A straight way between two points of the strip stays in it. -/
theorem Strip.of_between (hp : Strip side source target p) (hq : Strip side source target q)
    (h : p.Between q r) : Strip side source target r := by
  rcases before_of_between side h with ⟨hpr, hrq⟩ | ⟨hqr, hrp⟩
  · exact ⟨hp.past.trans hpr, hrq.trans hq.short⟩
  · exact ⟨hq.past.trans hqr, hrp.trans hp.short⟩

/-- Neither box holds a point of the strip. -/
theorem Strip.not_holds (h : Strip side source target p) : ¬source.Holds p ∧ ¬target.Holds p := by
  rcases h with ⟨hpast, hshort⟩
  -- The strip lies beyond one side of each box, and a box holds only what is short of all its
  -- sides.
  cases side with
  | top =>
      exact ⟨fun hin => Single.not_lt_of_le hpast hin.2.2.1,
        fun hin => Single.not_lt_of_le hshort hin.2.2.2⟩
  | bottom =>
      exact ⟨fun hin => Single.not_lt_of_le hpast hin.2.2.2,
        fun hin => Single.not_lt_of_le hshort hin.2.2.1⟩
  | left =>
      exact ⟨fun hin => Single.not_lt_of_le hpast hin.1,
        fun hin => Single.not_lt_of_le hshort hin.2.1⟩
  | right =>
      exact ⟨fun hin => Single.not_lt_of_le hpast hin.2.1,
        fun hin => Single.not_lt_of_le hshort hin.1⟩

end Side

end Flowchart
