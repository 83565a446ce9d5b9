import Flowchart.Color.Css
import Flowchart.Text.Blank

/-!
# Colors

A color keeps the text its author wrote, for a renderer to receive unchanged,
together with what the text means. Only a text that means something is a color,
so a color that was written out can be read again.

## Main definitions

* `Color`: A text with its meaning.
* `Color.parse`: The color of a text, or why it is none.
* `Color.same`: Whether two colors mean the same.

## Theorems

* `Color.parse_css`: Reading the text of a color gives the color back.
-/

namespace Flowchart

/-- A color text that was checked, with its meaning. -/
structure Color where
  css : String
  value : Color.Value
  /-- There are no blanks around the text. -/
  trimmed_css : Text.trimmed css = css
  /-- The text has this meaning. -/
  value_css : Color.Css.value css.toList = .ok value
deriving DecidableEq

namespace Color

/-- A text that is no color, and the fault in it. -/
structure Refusal where
  css : String
  fault : Fault
deriving DecidableEq, Repr

/-- The message that refuses a color. -/
def Refusal.message (r : Refusal) : String :=
  "invalid color `" ++ r.css ++ "`: " ++ r.fault.message

/-- The color of a text, blanks around it apart. -/
def parse (text : String) : Except Refusal Color :=
  match h : Css.value (Text.trimmed text).toList with
  | .ok value => .ok ⟨Text.trimmed text, value, Text.trimmed_trimmed text, h⟩
  | .error fault => .error ⟨Text.trimmed text, fault⟩

theorem parse_css (c : Color) : parse c.css = .ok c := by
  obtain ⟨css, value, ht, hv⟩ := c
  simp only [parse]
  split
  · rename_i v h
    simp only [ht, hv, Except.ok.injEq] at h
    subst h
    simp [ht]
  · rename_i fault h
    simp [ht, hv] at h

/-- Whether two colors mean the same, however they are spelled. -/
def same (a b : Color) : Bool := a.value.same b.value

/-- The opacity of a color, from zero to one. -/
def alpha (c : Color) : Float32 := c.value.opacity.value

end Color

end Flowchart
