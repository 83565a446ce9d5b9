import Flowchart.Decimal.Text
import Flowchart.Diagnostic
import Flowchart.Statement.Basic

/-!
# Style Properties

A property of a style sets the fill, the stroke or the width of the stroke.
The first two are colors; the width is a number that may be followed by the
unit `px`, and must be finite and not negative. A property that is unknown or
has a value that cannot be used is refused, and the others still count.

## Main definitions

* `Property.style?`: The style that a property sets, or why it is refused.
-/

namespace Flowchart

namespace Property

/-- The text without the units at its end. It is given back to front. -/
def dropUnits : List Char → List Char
  | 'x' :: 'p' :: rest => dropUnits rest
  | rest => rest

/-- The number in the text of a width. -/
def widthText (value : String) : List Char :=
  Text.trimRight (dropUnits (Text.trim value.toList).reverse).reverse

/-- The width that a text spells, if a stroke can have it. -/
def strokeWidth? (value : String) : Option Float32 := do
  let width := (← Decimal.ofText? (widthText value)).toSingle
  if width.isFinite && (0 : Float32) ≤ width then some width else none

/-- The color that a value spells, or why it spells none. -/
def color? (value : String) : Except String Color :=
  match Color.parse value with
  | .ok color => .ok color
  | .error refusal => .error refusal.message

/-- The style that a property sets, or why it is refused. -/
def style? (p : Property) : Except String Style :=
  match p.key with
  | "fill" => (color? p.value).map fun color => { fill := some color }
  | "stroke" => (color? p.value).map fun color => { stroke := some color }
  | "stroke-width" =>
      match strokeWidth? p.value with
      | some width => .ok { strokeWidth := some width }
      | none => .error ("invalid stroke width `" ++ p.value ++ "`")
  | key => .error ("unsupported style property `" ++ key ++ "`")

end Property

end Flowchart
