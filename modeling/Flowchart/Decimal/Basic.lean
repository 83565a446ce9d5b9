import Flowchart.Single

/-!
# Decimal Numbers

A `Decimal` is what a run of digits with a sign, a point and a power of ten
denotes, before any rounding. Reading text into a `Decimal` is exact; the
conversions to singles and doubles round once, to the nearest, a tie going to
the even neighbour.

The power of ten in a text is unbounded, so the conversions look at the
decimal magnitude first: beyond the range of the target they answer an
infinity or a zero without building the power.
-/

namespace Flowchart

/-- The number `digits * 10 ^ exponent`, with a sign of its own so that a
    negative zero can be told from zero. -/
structure Decimal where
  negative : Bool
  digits : Nat
  exponent : Int
deriving DecidableEq, Repr

namespace Decimal

/-- The value of a decimal digit. -/
def digitValue (c : Char) : Nat := c.toNat - '0'.toNat

/-- The number that a run of digits denotes. -/
def ofDigits (cs : List Char) : Nat :=
  cs.foldl (fun n c => 10 * n + digitValue c) 0

/-- The power of ten just above the number: `10 ^ (m - 1) ≤ digits * 10 ^
    exponent < 10 ^ m` for a number that is not zero. -/
def magnitude (d : Decimal) : Int :=
  (Nat.toDigits 10 d.digits).length + d.exponent

/-- The number with its sign taken off. -/
def unsigned {α : Type} (d : Decimal) (zero infinity : α) (low high : Int)
    (scientific : Nat → Bool → Nat → α) : α :=
  if d.digits = 0 ∨ d.magnitude < low then zero
  else if high < d.magnitude then infinity
  else scientific d.digits (d.exponent < 0) d.exponent.natAbs

/-- The nearest single. -/
def toSingle (d : Decimal) : Float32 :=
  let x := d.unsigned 0 (1 / 0) (-60) 60 Float32.ofScientific
  if d.negative then -x else x

/-- The nearest double. -/
def toDouble (d : Decimal) : Float :=
  let x := d.unsigned 0 (1 / 0) (-400) 400 Float.ofScientific
  if d.negative then -x else x

end Decimal

end Flowchart
