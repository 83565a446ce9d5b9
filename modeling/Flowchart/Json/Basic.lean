import Flowchart.Decimal.Shortest

/-!
# JSON Values

A JSON value as it is written: an object is a list of members, which may repeat
a key, a number keeps its digits, and a string may turn out to denote no text.
What a repeated key or a number out of range means is for the reader of a value
to say.

## Main definitions

* `Json.Number`: A number as it is written.
* `Json.Number.toSingle?`, `Json.Number.ofSingle`: Numbers and singles.
* `Json`: A value.
-/

namespace Flowchart

namespace Json

/-- A number as it is written. The fraction is empty where there is no point. -/
structure Number where
  negative : Bool
  whole : List Char
  fraction : List Char
  exponent : Option Int
deriving DecidableEq, Repr

namespace Number

/-- Whether a number has neither a point nor an exponent. -/
def isInteger (n : Number) : Bool := n.fraction.isEmpty && n.exponent.isNone

/-- The integer that the digits before the point spell. -/
def wholeValue (n : Number) : Nat := Decimal.ofDigits n.whole

/-- The value of a number without a point, an exponent or a minus. -/
def toNat? (n : Number) : Option Nat :=
  if n.isInteger && !n.negative then some n.wholeValue else none

/-! ## Reading numbers

The leading digits of a number make up a significand of 64 bits, and further
ones only count for its magnitude. The significand is rounded to a double and
then scaled by a power of ten, which rounds once more. -/

/-- One more than the greatest significand. -/
def significandLimit : Nat := Nat.pow 2 64

/-- The leading digits of a number, and the power of ten that belongs to
    them. -/
structure Leading where
  significand : Nat
  exponent : Int
  /-- Whether a digit did not fit. -/
  full : Bool

/-- The leading digits after one more digit before the point. -/
def Leading.addWhole (l : Leading) (c : Char) : Leading :=
  let next := 10 * l.significand + Decimal.digitValue c
  if l.full ∨ significandLimit ≤ next then { l with exponent := l.exponent + 1, full := true }
  else { l with significand := next }

/-- The leading digits after one more digit behind the point. -/
def Leading.addFraction (l : Leading) (c : Char) : Leading :=
  let next := 10 * l.significand + Decimal.digitValue c
  if l.full ∨ significandLimit ≤ next then { l with full := true }
  else { l with significand := next, exponent := l.exponent - 1 }

/-- The leading digits of a number. -/
def leading (n : Number) : Leading :=
  let l := n.whole.foldl Leading.addWhole ⟨0, 0, false⟩
  n.fraction.foldl Leading.addFraction { l with full := false }

/-- A power of ten that a double can hold. -/
def powerOfTen (n : Nat) : Float := Float.ofScientific 1 false n

/-- A number times a power of ten, unless it is too large. Below the range of
    powers that a double can hold, the number is scaled in steps. -/
def scale : Nat → Float → Int → Option Float
  | 0, _, _ => some 0
  | fuel + 1, x, e =>
      if e.natAbs ≤ 308 then
        if 0 ≤ e then
          let y := x * powerOfTen e.natAbs
          if y.isInf then none else some y
        else some (x / powerOfTen e.natAbs)
      else if x == 0 then some x
      else if 0 ≤ e then none
      else scale fuel (x / powerOfTen 308) (e + 308)

/-- The double that a number with a point or an exponent stands for. -/
def scaled? (n : Number) : Option Float :=
  let l := n.leading
  (scale 4 (Float.ofNat l.significand) (l.exponent + n.exponent.getD 0)).map fun x =>
    if n.negative then -x else x

/-- The integer that a number stands for, if it has neither a point nor an
    exponent, fits into 64 bits, and is not a negative zero. -/
def toInteger? (n : Number) : Option Int :=
  let value := n.wholeValue
  if !n.isInteger then none
  else if n.negative then if 0 < value ∧ value ≤ Nat.pow 2 63 then some (-value) else none
  else if value < significandLimit then some value else none

/-- The double that a number stands for, unless it is out of range. -/
def toDouble? (n : Number) : Option Float :=
  match n.toInteger? with
  | some value => some (if value < 0 then -(Float.ofNat value.natAbs) else Float.ofNat value.natAbs)
  | none => n.scaled?

/-- The single that a number stands for, unless it is out of range of doubles.
    An integer is rounded once, and another number to a double first. -/
def toSingle? (n : Number) : Option Float32 :=
  match n.toInteger? with
  | some value => some (Single.ofInteger value)
  | none => n.scaled?.map Single.ofDouble

/-! ## Writing numbers -/

/-- The number that stands for a decimal. It is written with a point, between
    the millionth and ten trillion, and otherwise with an exponent. -/
def ofDecimal (d : Decimal) : Number :=
  let text := Decimal.digitText d.digits
  let point := (text.length : Int) + d.exponent
  if d.digits = 0 ∨ (-5 ≤ point ∧ point ≤ 13) then
    let (whole, fraction) := d.split
    ⟨d.negative, whole, if fraction.isEmpty then ['0'] else fraction, none⟩
  else ⟨d.negative, text.take 1, text.drop 1, some (point - 1)⟩

/-- The number that stands for a single, with the fewest digits that read back.
    There is none for an infinity or a missing number. -/
def ofSingle (x : Float32) : Option Number :=
  if x.isFinite then some (ofDecimal (.ofSingle .even x)) else none

/-- The text of an exponent, which always has a sign. -/
def exponentText (e : Int) : List Char :=
  'e' :: (if e < 0 then '-' else '+') :: Decimal.digitText e.natAbs

/-- The text of a number. -/
def text (n : Number) : List Char :=
  (if n.negative then ['-'] else []) ++ n.whole ++
    (if n.fraction.isEmpty then [] else '.' :: n.fraction) ++
    (match n.exponent with
      | some e => exponentText e
      | none => [])

end Number

end Json

/-- A value. A string denotes no text if it holds an escape for one half of a
    surrogate pair without the other. -/
inductive Json where
  | null
  | bool (value : Bool)
  | number (value : Json.Number)
  | string (text : Option String)
  | array (items : List Json)
  | object (members : List (Option String × Json))

namespace Json

/-- The string of a text. -/
def ofText (s : String) : Json := .string (some s)

/-- The value of a single. One that is not finite cannot be written. -/
def ofSingle (x : Float32) : Json :=
  match Number.ofSingle x with
  | some n => .number n
  | none => .null

/-- The object with the given members. -/
def ofMembers (ms : List (String × Json)) : Json := .object (ms.map fun (k, v) => (some k, v))

end Json

end Flowchart
