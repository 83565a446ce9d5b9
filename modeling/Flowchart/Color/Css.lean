import Flowchart.Color.Name
import Flowchart.Color.Value
import Flowchart.Decimal.Basic

/-!
# Reading Colors

The notations of a color: hexadecimal digits after `#`, a name, or a function
with components.

Blanks and comments are subtle. A comment may stand before any token, and an
unclosed one ends the reading of tokens at the place where it starts. Between
components a run of blanks may be mixed with comments, and a comment is used
up even where no blank follows it.

## Main definitions

* `Color.Fault`: Why a text is no color.
* `Color.Css.value`: The meaning of a text, or the fault in it.
-/

namespace Flowchart

namespace Color

/-- Why a text is no color. -/
inductive Fault where
  | hexDigits
  | trailingText
  | unknownSyntax
  | unknownIdentifier
  | missingArguments
  | unclosedArguments
  | unknownComponent
  | unknownAngle
  | unknownAngleUnit
  | missingComma
  | missingSpace
  | unknownSpace
deriving DecidableEq, Repr

/-- The wording of a fault. -/
def Fault.message : Fault → String
  | hexDigits => "wrong number of hex digits"
  | trailingText => "expected end of string"
  | unknownSyntax => "unknown color syntax"
  | unknownIdentifier => "unknown color identifier"
  | missingArguments => "expected arguments"
  | unclosedArguments => "expected closing parenthesis"
  | unknownComponent => "unknown color component"
  | unknownAngle => "unknown angle"
  | unknownAngleUnit => "unknown angle dimension"
  | missingComma => "expected comma"
  | missingSpace => "expected color space identifier"
  | unknownSpace => "unknown color space"

namespace Css

/-- A reader consumes characters, and fails with the fault in them. -/
abbrev Reader := StateT (List Char) (Except Fault)

/-! ## Blanks and comments -/

/-- The text after the first end of a comment. -/
def afterComment : List Char → Option (List Char)
  | '*' :: '/' :: rest => some rest
  | _ :: rest => afterComment rest
  | [] => none

/-- The text after the comments it starts with, and whether each of them was
    closed. An unclosed comment is left in place. -/
def skipComments (cs : List Char) : List Char × Bool :=
  go cs.length cs
where
  go : Nat → List Char → List Char × Bool
    | fuel + 1, '/' :: '*' :: rest =>
        match afterComment rest with
        | some rest => go fuel rest
        | none => ('/' :: '*' :: rest, false)
    | _, cs => (cs, true)

/-- A blank between the components of a color. -/
def isSpace (c : Char) : Bool := c == ' ' || c == '\t' || c == '\r' || c == '\n'

/-- The text after comments and then blanks, and whether there was a blank. -/
def skipRun (cs : List Char) : List Char × Bool :=
  let (cs, closed) := skipComments cs
  if closed then
    let rest := cs.dropWhile isSpace
    (rest, rest.length < cs.length)
  else (cs, false)

/-- The text after every run of comments and blanks. A comment with no blank
    after it ends the run and is used up. -/
def skipBlanks (cs : List Char) : List Char :=
  go cs.length cs
where
  go : Nat → List Char → List Char
    | fuel + 1, cs =>
        match skipRun cs with
        | (rest, true) => go fuel rest
        | (rest, false) => rest
    | 0, cs => cs

/-! ## Tokens -/

/-- The token that stands at the head of the text, if it is `c`. -/
def char? (c : Char) (cs : List Char) : Option (List Char) :=
  match cs with
  | d :: rest => if c = d then some rest else none
  | [] => none

/-- Use up comments and then the character `c`, and tell whether it was there.
    The comments are used up in either case. -/
def take (c : Char) : Reader Bool := fun cs =>
  match skipComments cs with
  | (cs, true) =>
      match char? c cs with
      | some rest => .ok (true, rest)
      | none => .ok (false, cs)
  | (cs, false) => .ok (false, cs)

/-- A character that an identifier may hold at its head. -/
def startsIdentifier (c : Char) : Bool := c.isAlpha || c == '_' || c == '-'

/-- A character that an identifier may hold further on. -/
def continuesIdentifier (c : Char) : Bool := startsIdentifier c || c.isDigit

/-- The identifier at the head of the text. A digit may not be its first
    character, nor follow a hyphen that is. Neither a lone hyphen nor anything
    that starts with two is an identifier. -/
def identifier? (cs : List Char) : Option (List Char × List Char) :=
  match cs with
  | '-' :: c :: rest =>
      if c = '-' ∨ ¬ startsIdentifier c then none
      else some ('-' :: c :: rest.takeWhile continuesIdentifier,
        rest.dropWhile continuesIdentifier)
  | c :: rest =>
      if c = '-' ∨ ¬ startsIdentifier c then none
      else some (c :: rest.takeWhile continuesIdentifier, rest.dropWhile continuesIdentifier)
  | [] => none

/-- The digits at the head of the text, and what follows them. -/
def digits (cs : List Char) : List Char × List Char :=
  (cs.takeWhile Char.isDigit, cs.dropWhile Char.isDigit)

/-- A sign at the head of the text: whether it is a minus, and what follows. -/
def sign : List Char → Bool × List Char
  | '-' :: rest => (true, rest)
  | '+' :: rest => (false, rest)
  | cs => (false, cs)

/-- The digits after a point. A point without a digit after it is not read. -/
def fraction : List Char → List Char × List Char
  | '.' :: rest =>
      let (ds, rest') := digits rest
      if ds.isEmpty then ([], '.' :: rest) else (ds, rest')
  | cs => ([], cs)

/-- The power of ten after an `e`. An `e` without a digit is not read. -/
def power (cs : List Char) : Int × List Char :=
  match cs with
  | e :: rest =>
      if e = 'e' ∨ e = 'E' then
        let (negative, tail) := sign rest
        let (ds, tail) := digits tail
        if ds.isEmpty then (0, cs)
        else
          let n : Int := Decimal.ofDigits ds
          (if negative then -n else n, tail)
      else (0, cs)
  | [] => (0, cs)

/-- The number at the head of the text, after comments. It needs a digit
    before or after its point. -/
def number? (cs : List Char) : Option (Float × List Char) :=
  match skipComments cs with
  | (_, false) => none
  | (cs, true) =>
      let (negative, rest) := sign cs
      let (whole, rest) := digits rest
      let (part, rest) := fraction rest
      if whole.isEmpty && part.isEmpty then none
      else
        let (exponent, rest) := power rest
        let decimal : Decimal :=
          ⟨negative, Decimal.ofDigits (whole ++ part), exponent - part.length⟩
        some (decimal.toDouble, rest)

/-- A value among the arguments of a function. -/
inductive Argument where
  | number (x : Float)
  | percent (x : Float)
  | dimension (x : Float) (unit : String)
  | word (text : String)

/-- Lower-case spelling of an identifier. -/
def lower (cs : List Char) : String := String.ofList (cs.map Char.toLower)

/-- The value at the head of the text. -/
def argument? (cs : List Char) : Option (Argument × List Char) :=
  match number? cs with
  | some (x, rest) =>
      match char? '%' rest with
      | some rest => some (.percent x, rest)
      | none =>
          match identifier? rest with
          | some (unit, rest) => some (.dimension x (lower unit), rest)
          | none => some (.number x, rest)
  | none =>
      -- A word is not looked for past comments, but those before it are gone.
      (identifier? (skipComments cs).1).map fun (word, rest) => (.word (lower word), rest)

/-! ## Components -/

/-- The value after blanks, if there is one. -/
def argument : Reader (Option Argument) := fun cs =>
  match argument? (skipBlanks cs) with
  | some (a, rest) => .ok (some a, rest)
  | none => .ok (none, skipBlanks cs)

/-- A component that may be left open: a number times `unit`, or a percentage
    times `percent`. -/
def component (unit percent : Float) : Reader (Option Float) := do
  match ← argument with
  | some (.number x) => return some (x * unit)
  | some (.percent x) => return some (x * percent)
  | some (.word "none") => return none
  | _ => throw .unknownComponent

/-- Degrees in one unit of an angle. -/
def degreesPer? : String → Option Float
  | "deg" => some 1
  | "rad" => some (180 / 3.141592653589793)
  | "grad" => some 0.9
  | "turn" => some 360
  | _ => none

/-- An angle in degrees, which may be left open. -/
def angle : Reader (Option Float) := do
  match ← argument with
  | some (.number x) => return some x
  | some (.word "none") => return none
  | some (.dimension x unit) =>
      match degreesPer? unit with
      | some degrees => return some (x * degrees)
      | none => throw .unknownAngleUnit
  | _ => throw .unknownAngle

/-- The number nearest to `x` between two ends. -/
def clamp (low high x : Float) : Float :=
  if x < low then low else if high < x then high else x

/-- A number that may not be negative. -/
def nonNegative (x : Float) : Float := if x < 0 then 0 else x

/-- The opacity after a separator, which is a comma where the components were
    separated by commas. Without the separator a color is opaque. -/
def opacity (commas : Bool) : Reader (Option Float) := do
  modify skipBlanks
  if ← take (if commas then ',' else '/') then
    return (← component 1 0.01).map (clamp 0 1)
  else return some 1

/-- The comma that a color must repeat once it has used one. -/
def comma (required : Bool) : Reader Unit := do
  modify skipBlanks
  if required then
    unless ← take ',' do throw .missingComma

/-- A component as it is kept. -/
def keep : Option Float → Component
  | some x => .ofDouble x
  | none => .absent

/-- The components of a color, which its function has read. -/
structure Components where
  first : Option Float
  second : Option Float
  third : Option Float
  opacity : Option Float

/-- The color that the components make in a space. -/
def Components.value (c : Components) (space : ColorSpace) (origin : Origin) : Value :=
  ⟨space, origin, keep c.first, keep c.second, keep c.third, keep c.opacity⟩

/-! ## Functions -/

/-- Red, green and blue, from zero to 255 or in percent. -/
def rgb : Reader Components := do
  let channel := component (1 / 255) 0.01
  let r ← channel
  modify skipBlanks
  let commas ← take ','
  let g ← channel
  comma commas
  let b ← channel
  let a ← opacity commas
  return ⟨r.map (clamp 0 1), g.map (clamp 0 1), b.map (clamp 0 1), a⟩

/-- Hue, saturation and lightness. The first comma must follow the hue at
    once. -/
def hsl : Reader Components := do
  let h ← angle
  let commas ← take ','
  let s ← component 1 1
  comma commas
  let l ← component 1 1
  let a ← opacity commas
  return ⟨h, s.map nonNegative, l, a⟩

/-- Hue, whiteness and blackness. -/
def hwb : Reader Components := do
  let h ← angle
  let w ← component 1 1
  let b ← component 1 1
  let a ← opacity false
  return ⟨h, w, b, a⟩

/-- Lightness up to `lightest` and two coordinates, of which a percentage
    counts `percent`. -/
def lab (lightest percent : Float) : Reader Components := do
  let l ← component 1 (0.01 * lightest)
  let x ← component 1 percent
  let y ← component 1 percent
  let a ← opacity false
  return ⟨l.map (clamp 0 lightest), x, y, a⟩

/-- Lightness up to `lightest`, chroma, of which a percentage counts
    `percent`, and hue. -/
def lch (lightest percent : Float) : Reader Components := do
  let l ← component 1 (0.01 * lightest)
  let c ← component 1 percent
  let h ← angle
  let a ← opacity false
  return ⟨l.map (clamp 0 lightest), c.map nonNegative, h, a⟩

/-- The space that the generic function names. -/
def space? : String → Option ColorSpace
  | "srgb" => some .srgb
  | "srgb-linear" => some .linearSrgb
  | "display-p3" => some .displayP3
  | "a98-rgb" => some .a98Rgb
  | "prophoto-rgb" => some .prophotoRgb
  | "rec2020" => some .rec2020
  | "xyz-d50" => some .xyzD50
  | "xyz" => some .xyzD65
  | "xyz-d65" => some .xyzD65
  | _ => none

/-- The word after blanks, in lower case. -/
def word? : Reader (Option String) := fun cs =>
  match identifier? (skipBlanks cs) with
  | some (word, rest) => .ok (some (lower word), rest)
  | none => .ok (none, skipBlanks cs)

/-- The generic function: a space, then its three components. -/
def generic : Reader Value := do
  match ← word? with
  | none => throw .missingSpace
  | some word =>
      match space? word with
      | none => throw .unknownSpace
      | some space =>
          let x ← component 1 0.01
          let y ← component 1 0.01
          let z ← component 1 0.01
          let a ← opacity false
          return Components.value ⟨x, y, z, a⟩ space .generic

/-- The arguments of a function, between its parentheses. The opening one must
    follow the name at once. -/
def arguments (read : Reader Value) : Reader Value := do
  match char? '(' (← get) with
  | none => throw .missingArguments
  | some cs =>
      set cs
      let value ← read
      modify skipBlanks
      if ← take ')' then return value else throw .unclosedArguments

/-- The arguments of a function named for its space. -/
def inSpace (space : ColorSpace) (read : Reader Components) : Reader Value :=
  arguments do return (← read).value space .named

/-- The color of a name. Its components do not matter, for its name alone
    decides what it is the same as. -/
def ofName (spelling : String) : Value :=
  let opacity := if spelling = transparentName then 0 else 1
  ⟨.srgb, .name spelling, ⟨0, false⟩, ⟨0, false⟩, ⟨0, false⟩, ⟨opacity, false⟩⟩

/-- What follows an identifier, which is a function or a name. -/
def identified (word : String) : Reader Value :=
  match word with
  | "rgb" => inSpace .srgb rgb
  | "rgba" => inSpace .srgb rgb
  | "hsl" => inSpace .hsl hsl
  | "hsla" => inSpace .hsl hsl
  | "hwb" => inSpace .hwb hwb
  | "lab" => inSpace .lab (lab 100 1.25)
  | "oklab" => inSpace .oklab (lab 1 0.004)
  | "lch" => inSpace .lch (lch 100 1.25)
  | "oklch" => inSpace .oklch (lch 1 0.004)
  | "color" => arguments generic
  | word => if word ∈ names then return ofName word else throw .unknownIdentifier

/-! ## Hexadecimal digits -/

/-- The value of a hexadecimal digit. -/
def hexValue? (c : Char) : Option Nat :=
  if c.isDigit then some (c.toNat - '0'.toNat)
  else if 'a' ≤ c ∧ c ≤ 'f' then some (c.toNat - 'a'.toNat + 10)
  else if 'A' ≤ c ∧ c ≤ 'F' then some (c.toNat - 'A'.toNat + 10)
  else none

/-- At most `n` hexadecimal digits at the head of the text. -/
def hexDigits : Nat → List Char → List Nat × List Char
  | n + 1, c :: rest =>
      match hexValue? c with
      | some d =>
          let (ds, rest) := hexDigits n rest
          (d :: ds, rest)
      | none => ([], c :: rest)
  | _, cs => ([], cs)

/-- A channel of two digits as a share of 255. -/
def channel (high low : Nat) : Component :=
  ⟨Float32.ofNat (16 * high + low) * (1 / 255), false⟩

/-- The color of four channels. -/
def ofChannels (r g b a : Component) : Value := ⟨.srgb, .named, r, g, b, a⟩

/-- The color of hexadecimal digits: one or two for each channel, and an
    opaque color where none are left for the opacity. -/
def ofHex? : List Nat → Option Value
  | [r, g, b] => some (ofChannels (channel r r) (channel g g) (channel b b) (channel 15 15))
  | [r, g, b, a] => some (ofChannels (channel r r) (channel g g) (channel b b) (channel a a))
  | [r, r', g, g', b, b'] =>
      some (ofChannels (channel r r') (channel g g') (channel b b') (channel 15 15))
  | [r, r', g, g', b, b', a, a'] =>
      some (ofChannels (channel r r') (channel g g') (channel b b') (channel a a'))
  | _ => none

/-- The color at the head of the text. -/
def head : Reader Value := fun cs =>
  match cs with
  | '#' :: rest =>
      let (ds, rest) := hexDigits 8 rest
      match ofHex? ds with
      | some value => .ok (value, rest)
      | none => .error .hexDigits
  | cs =>
      match identifier? cs with
      | some (word, rest) => identified (lower word) rest
      | none => .error .unknownSyntax

/-- The meaning of a text that is nothing but a color. -/
def value (cs : List Char) : Except Fault Value :=
  match head cs with
  | .ok (value, []) => .ok value
  | .ok (_, _ :: _) => .error .trailingText
  | .error fault => .error fault

end Css

end Color

end Flowchart
