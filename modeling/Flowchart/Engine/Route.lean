import Flowchart.Engine.Basic

/-!
# Routes

A link leaves its source and enters its target through sides that face each
other, and turns twice, halfway between them. Where the boxes stand one above
the other, the sides are top and bottom; otherwise they are left and right. A
link from a box to itself goes out of its right side and back into it.

## Main definitions

* `Path`: A route without a name.
* `Path.between`: The path from one box to another.
* `Path.loop`: The path from a box to itself.
* `simplify`: The bends of a path that are not on a straight line.
-/

namespace Flowchart

namespace Engine

/-- A start, bends and a finish. -/
structure Path where
  start : Point
  bends : List Point
  finish : Point
deriving DecidableEq

namespace Path

/-- The path that turns twice on a horizontal line halfway down. -/
def upright (start finish : Point) : Path :=
  let middle := start.midpoint finish
  ⟨start, [⟨start.x, middle.y⟩, ⟨finish.x, middle.y⟩], finish⟩

/-- The path that turns twice on a vertical line halfway across. -/
def sideways (start finish : Point) : Path :=
  let middle := start.midpoint finish
  ⟨start, [⟨middle.x, start.y⟩, ⟨middle.x, finish.y⟩], finish⟩

/-- The path from one box to another. -/
def between (source target : Box) : Path :=
  if target.minY ≥ source.maxY then
    upright ⟨source.center.x, source.maxY⟩ ⟨target.center.x, target.minY⟩
  else if target.maxY ≤ source.minY then
    upright ⟨source.center.x, source.minY⟩ ⟨target.center.x, target.maxY⟩
  else if target.minX ≥ source.maxX then
    sideways ⟨source.maxX, source.center.y⟩ ⟨target.minX, target.center.y⟩
  else
    sideways ⟨source.minX, source.center.y⟩ ⟨target.maxX, target.center.y⟩

/-- How far a loop sticks out to the right of its box. -/
def loopOffset : Float32 := 30

/-- The path from a box to itself. -/
def loop (box : Box) : Path :=
  let center := box.center
  let quarter := box.height / 4
  let right := box.maxX
  let outside := right + loopOffset
  ⟨⟨right, center.y - quarter⟩,
    [⟨outside, center.y - quarter⟩, ⟨outside, center.y + quarter⟩],
    ⟨right, center.y + quarter⟩⟩

end Path

/-- Whether three points are nearly on one line. -/
def isCollinear (a b c : Point) : Bool :=
  let ab := b.sub a
  let ac := c.sub a
  (ab.x * ac.y - ab.y * ac.x).abs < 0.001

/-- The bends that are not on a straight line from the point kept before them
    to the point that follows. -/
def simplify (previous : Point) (bends : List Point) (finish : Point) : List Point :=
  match bends with
  | [] => []
  | bend :: rest =>
      if isCollinear previous bend (rest.headD finish) then simplify previous rest finish
      else bend :: simplify bend rest finish

/-- The path with only the bends it needs. -/
def Path.simplified (p : Path) : Path := { p with bends := simplify p.start p.bends p.finish }

/-- The path between the boxes at the ends of a link. -/
def Path.ofBoxes (simplified : Bool) (isLoop : Bool) (source target : Box) : Path :=
  let path := if isLoop then loop source else between source target
  if simplified then path.simplified else path

end Engine

end Flowchart
