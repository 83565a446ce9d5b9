import Flowchart.Decimal.Basic

/-!
# Shortest Decimals

The text of a single is the shortest decimal that reads back to it, and among
those the nearest. A positive single is `m * 2 ^ q`, and the reals that round
to it form an interval around it, ends included when `m` is even. A decimal
with last place `10 ^ k` that lies in the interval exists exactly if one of the
two neighbours of the single on that grid does, so the search tries the grids
from coarse to fine and stops at the first with a hit.

Everything is compared in whole numbers: in units of `2 ^ (q - 2)` the single
is `4 * m`, and the ends of its interval are whole too.

## Main definitions

* `Dyadic`: A positive single taken apart.
* `Dyadic.shortest`: Its shortest decimal.
* `Decimal.ofSingle`: The same for a single of either sign.
* `Decimal.plain`: Positional text without an exponent.
-/

namespace Flowchart

namespace Decimal

/-- Which of two equally near neighbours is taken. -/
inductive Tie where
  /-- The one with an even last digit. -/
  | even
  /-- The greater one. -/
  | up
deriving DecidableEq, Repr

/-- The positive number `mantissa * 2 ^ exponent`. `narrow` says that the next
    number below is only half as far away as the next one above, as it is at a
    power of two. -/
structure Dyadic where
  mantissa : Nat
  exponent : Int
  narrow : Bool
deriving DecidableEq, Repr

namespace Dyadic

/-- The magnitude of a single that is neither infinite nor missing. -/
def ofSingle (x : Float32) : Dyadic :=
  let bits := x.toBits.toNat % Nat.pow 2 31
  let field : Nat := bits / Nat.pow 2 23
  let fraction : Nat := bits % Nat.pow 2 23
  if field = 0 then ⟨fraction, -149, false⟩
  else ⟨Nat.pow 2 23 + fraction, (field : Int) - 150, fraction = 0 ∧ 1 < field⟩

/-- One step of the grid with last place `10 ^ k`, as a multiple of the common
    unit of `k` and the number. -/
def step (d : Dyadic) (k : Int) : Nat :=
  Nat.pow 10 k.toNat * Nat.pow 2 (2 - d.exponent).toNat

/-- A quarter of the number's last place, as a multiple of the same unit. -/
def quarter (d : Dyadic) (k : Int) : Nat :=
  Nat.pow 2 (d.exponent - 2).toNat * Nat.pow 10 (-k).toNat

/-- Whether `n * 10 ^ k` rounds to the number. -/
def covers (d : Dyadic) (k : Int) (n : Nat) : Bool :=
  let point := n * d.step k
  let low := (4 * d.mantissa - if d.narrow then 1 else 2) * d.quarter k
  let high := (4 * d.mantissa + 2) * d.quarter k
  if d.mantissa % 2 = 0 then low ≤ point ∧ point ≤ high
  else low < point ∧ point < high

/-- The nearer of the two neighbours on the grid with last place `10 ^ k`, if
    one of them rounds to the number. -/
def onGrid? (tie : Tie) (d : Dyadic) (k : Int) : Option Nat :=
  let value := 4 * d.mantissa * d.quarter k
  let below := value / d.step k
  let above := below + 1
  match d.covers k below, d.covers k above with
  | false, false => none
  | true, false => some below
  | false, true => some above
  | true, true =>
      let down := value - below * d.step k
      let up := above * d.step k - value
      if down < up then some below
      else if up < down then some above
      else match tie with
        | .even => some (if below % 2 = 0 then below else above)
        | .up => some above

/-- The first hit on the grids from `10 ^ k` downwards. -/
def search (tie : Tie) (d : Dyadic) : Nat → Int → Nat × Int
  | 0, k => (4 * d.mantissa * d.quarter k / d.step k, k)
  | fuel + 1, k =>
      match d.onGrid? tie k with
      | some n => (n, k)
      | none => search tie d fuel (k - 1)

/-- The shortest decimal that reads back, as digits and the power of ten of
    the last of them. The search starts above the number's own magnitude, and
    nine digits always suffice for a single. -/
def shortest (tie : Tie) (d : Dyadic) : Nat × Int :=
  let bits : Int := d.mantissa.log2 + 1 + d.exponent
  search tie d 16 (Int.fdiv (bits * 30103) 100000 + 1)

end Dyadic

/-- The shortest decimal of a single that is neither infinite nor missing. -/
def ofSingle (tie : Tie) (x : Float32) : Decimal :=
  let negative := decide (Nat.pow 2 31 ≤ x.toBits.toNat)
  let d := Dyadic.ofSingle x
  if d.mantissa = 0 then ⟨negative, 0, 0⟩
  else
    let (digits, exponent) := d.shortest tie
    ⟨negative, digits, exponent⟩

/-- The digits of a number in base ten, most significant first. -/
def digitText (n : Nat) : List Char := Nat.toDigits 10 n

/-- The digits before and after the point when no exponent is written. -/
def split (d : Decimal) : List Char × List Char :=
  let text := digitText d.digits
  let point := (text.length : Int) + d.exponent
  if point ≤ 0 then (['0'], List.replicate (-point).toNat '0' ++ text)
  else
    let padded := text ++ List.replicate d.exponent.toNat '0'
    (padded.take point.toNat, padded.drop point.toNat)

/-- Positional text: never an exponent, and no point before nothing. -/
def plain (d : Decimal) : String :=
  let (whole, fraction) := d.split
  let tail := if fraction.isEmpty then [] else '.' :: fraction
  String.ofList ((if d.negative then ['-'] else []) ++ whole ++ tail)

end Decimal

namespace Single

/-- The text of a single in a message: positional, and a name for what is not
    a finite number. -/
def plainText (x : Float32) : String :=
  if x.isNaN then "NaN"
  else if x.isInf then (if x < 0 then "-inf" else "inf")
  else (Decimal.ofSingle .up x).plain

end Single

end Flowchart
