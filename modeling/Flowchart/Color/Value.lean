import Flowchart.Single

/-!
# Color Values

What a color text means: a color space, how the color was written (by name, by
a function named for its space, or by the generic `color` function), and four
components, each of which may be left open with `none`. Two values are the same
if they agree on all of these, the components being compared as singles.

## Main definitions

* `ColorSpace`: The coordinate system of the components.
* `Color.Origin`: How a color was written.
* `Color.Value`: What a color text means.
* `Color.Value.same`: Whether two meanings are the same color.
-/

namespace Flowchart

/-- The coordinate systems a color can be given in. -/
inductive ColorSpace where
  | srgb
  | linearSrgb
  | displayP3
  | a98Rgb
  | prophotoRgb
  | rec2020
  | xyzD50
  | xyzD65
  | lab
  | lch
  | oklab
  | oklch
  | hsl
  | hwb
deriving DecidableEq, Repr

namespace Color

/-- How a color was written. Two different names are never the same color,
    whatever they look like. -/
inductive Origin where
  /-- By the name with this lower-case spelling. -/
  | name (spelling : String)
  /-- By hexadecimal digits, or by a function named for its space. -/
  | named
  /-- By the generic function that takes the space as an argument. -/
  | generic
deriving DecidableEq, Repr

/-- A component: a number, or `none`, which counts as zero but is remembered. -/
structure Component where
  value : Float32
  missing : Bool
deriving DecidableEq

namespace Component

/-- The component left open. -/
def absent : Component := ⟨0, true⟩

/-- A component that was computed as a double. -/
def ofDouble (x : Float) : Component := ⟨Single.ofDouble x, false⟩

/-- Whether two components agree as numbers and in being left open. -/
def same (a b : Component) : Bool := a.missing == b.missing && a.value == b.value

end Component

/-- What a color text means. -/
structure Value where
  space : ColorSpace
  origin : Origin
  first : Component
  second : Component
  third : Component
  opacity : Component
deriving DecidableEq

namespace Value

/-- Whether two meanings are the same color. -/
def same (a b : Value) : Bool :=
  a.space == b.space && a.origin == b.origin && a.first.same b.first &&
    a.second.same b.second && a.third.same b.third && a.opacity.same b.opacity

end Value

end Color

end Flowchart
