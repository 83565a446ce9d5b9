/-!
# Single Precision Numbers

Every coordinate of a drawing is an IEEE single, and every operation on it
rounds to a single. Lean's `Float32` supplies the arithmetic. This module adds
what a drawing needs besides: a maximum and a minimum that ignore an operand
that is not a number, a total order to sort by, and the rounding of a double.
Doubles come up where a layering answers, and are sorted in the same order.

The total order is that of the bits, and it has a place for the missing number
at either end, by its sign. Nothing says which sign a missing number has that
comes out of arithmetic. It is put first here, which is where a set sign puts
it. No theorem depends on that: wherever one speaks of an order, it speaks of
numbers.

## Main definitions

* `Single.max`, `Single.min`: The extremum that a missing operand loses.
* `Single.key`: An integer that orders singles totally.
* `Double.totalLe`: The same order on doubles.
* `Single.ofDouble`: The single nearest to a double.
* `Single.ofInteger`: The single nearest to an integer.
-/

namespace Flowchart

namespace Single

/-- The greater of two numbers. An operand that is not a number loses, so the
    result is not a number only if neither operand is one. -/
protected def max (a b : Float32) : Float32 :=
  if a.isNaN then b
  else if b.isNaN then a
  else if a < b then b else a

/-- The lesser of two numbers, with the same rule for missing operands. -/
protected def min (a b : Float32) : Float32 :=
  if a.isNaN then b
  else if b.isNaN then a
  else if b < a then b else a

/-- An integer whose order is the total order on singles: the missing number
    first, then from negative infinity upwards, with `-0.0` before `0.0`. The
    missing number could as well stand last, since its sign is left open. -/
def key (x : Float32) : Int :=
  if x.isNaN then -Int.pow 2 32
  else
    let bits := x.toBits.toNat
    if bits < Nat.pow 2 31 then bits else Int.pow 2 31 - 1 - (bits : Int)

/-- The single nearest to a double, a tie going to the even neighbour.
    A double beyond the range of singles becomes an infinity. -/
def ofDouble (x : Float) : Float32 :=
  match x.toModel.unpack with
  | .finite sign mantissa exponent _ =>
      .ofModel (.pack (.round .binary32 sign mantissa exponent))
  | special => .ofModel (.pack special)

/-- The single nearest to an integer, a tie going to the even neighbour. -/
def ofInteger (n : Int) : Float32 :=
  if n < 0 then -(Float32.ofNat n.natAbs) else Float32.ofNat n.natAbs

/-- Positive infinity. -/
def infinity : Float32 := 1 / 0

/-- Negative infinity, below every other number. -/
def negInfinity : Float32 := -1 / 0

end Single

/-- Whether a double comes no later than another one in the total order on
    doubles, which is the one that `Single.key` gives singles. Equal numbers
    are told apart by their bits: those of `-0.0` are the greater. -/
def Double.totalLe (a b : Float) : Bool :=
  a.isNaN || !b.isNaN && (a < b || a == b && b.toBits ≤ a.toBits)

end Flowchart
