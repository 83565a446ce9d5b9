import Flowchart.Single

/-!
# Geometry

Points, sizes and boxes in the plane of a drawing. The x axis points right and
the y axis points down, and a box is held by its top left corner.

## Main definitions

* `Point`, `Size`, `Box`: The three shapes of data.
* `Point.midpoint`: Halfway between two points.
* `Box.ofTopLeft`, `Box.around`: The box of a size at a corner, or at a center.
* `Box.meets`: Whether the insides of two boxes overlap.
* `Box.join`: The least box around two boxes.
* `Size.growTo`: A drawing made large enough for one more box.
-/

namespace Flowchart

/-- A point of the plane. -/
structure Point where
  x : Float32
  y : Float32
deriving DecidableEq

namespace Point

/-- The offset from `b` to `a`. -/
def sub (a b : Point) : Point := ⟨a.x - b.x, a.y - b.y⟩

/-- The point halfway between two points. -/
def midpoint (a b : Point) : Point := ⟨(a.x + b.x) / 2, (a.y + b.y) / 2⟩

end Point

/-- A width and a height. -/
structure Size where
  width : Float32
  height : Float32
deriving DecidableEq

namespace Size

/-- The size of a point. -/
def zero : Size := ⟨0, 0⟩

/-- The greater width and the greater height of two sizes. -/
protected def max (a b : Size) : Size :=
  ⟨Single.max a.width b.width, Single.max a.height b.height⟩

end Size

/-- A box, from its least to its greatest coordinates. -/
structure Box where
  minX : Float32
  minY : Float32
  maxX : Float32
  maxY : Float32
deriving DecidableEq

namespace Box

/-- The box of a size whose top left corner is given. -/
def ofTopLeft (corner : Point) (size : Size) : Box :=
  ⟨corner.x, corner.y, corner.x + size.width, corner.y + size.height⟩

/-- The top left corner of a box of a size whose center is given. -/
def cornerAround (center : Point) (size : Size) : Point :=
  ⟨center.x - size.width / 2, center.y - size.height / 2⟩

/-- The point in the middle of a box. -/
def center (b : Box) : Point := ⟨(b.minX + b.maxX) / 2, (b.minY + b.maxY) / 2⟩

/-- How wide a box is. -/
def width (b : Box) : Float32 := b.maxX - b.minX

/-- How high a box is. -/
def height (b : Box) : Float32 := b.maxY - b.minY

/-- How wide and how high a box is. -/
def size (b : Box) : Size := ⟨b.width, b.height⟩

/-- The least box around two boxes. -/
def join (a b : Box) : Box :=
  ⟨Single.min a.minX b.minX, Single.min a.minY b.minY,
    Single.max a.maxX b.maxX, Single.max a.maxY b.maxY⟩

/-- Whether the insides of two boxes overlap. Boxes that only touch do not
    meet. -/
def meets (a b : Box) : Bool :=
  a.minX < b.maxX && b.minX < a.maxX && a.minY < b.maxY && b.minY < a.maxY

end Box

/-- A drawing anchored at the origin, made large enough for a box and the
    padding to its right and below it. -/
def Size.growTo (size : Size) (box : Box) (padding : Float32) : Size :=
  size.max ⟨box.maxX + padding, box.maxY + padding⟩

end Flowchart
