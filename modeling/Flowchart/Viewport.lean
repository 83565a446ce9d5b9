import Flowchart.Geometry

/-!
# Viewport

The transform that a renderer applies to a drawing: a scale and then a
shift. A drawing is fitted by centering it in the canvas, scaled down
where it is too large and never scaled up. The inverse takes a point of the
screen back to the drawing.

## Main definitions

* `Viewport.fit`: The transform that shows a whole drawing.
* `Viewport.toDrawing`: The point of the drawing that a screen point shows.
-/

namespace Flowchart

/-- A scale and a shift from a drawing to the screen. -/
structure Viewport where
  scale : Float32
  translateX : Float32
  translateY : Float32
deriving DecidableEq

namespace Viewport

/-- The transform that leaves every point in place. -/
def identity : Viewport := ⟨1, 0, 0⟩

/-- The scale at which a drawing fits into a canvas, never above one. -/
def fitScale (drawing canvas : Size) : Float32 :=
  Single.min (Single.min (canvas.width / drawing.width) (canvas.height / drawing.height)) 1

/-- The transform that centers a drawing in a canvas at the scale where it
    fits. A drawing without an inside is left in place. -/
def fit (drawing canvas : Size) : Viewport :=
  if drawing.width ≤ 0 || drawing.height ≤ 0 then identity
  else
    let scale := fitScale drawing canvas
    ⟨scale, (canvas.width - drawing.width * scale) / 2,
      (canvas.height - drawing.height * scale) / 2⟩

/-- The point of the drawing that a point of the screen shows. -/
def toDrawing (view : Viewport) (screen : Point) : Point :=
  ⟨(screen.x - view.translateX) / view.scale, (screen.y - view.translateY) / view.scale⟩

end Viewport

end Flowchart
