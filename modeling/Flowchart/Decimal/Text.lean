import Flowchart.Decimal.Basic

/-!
# Decimal Text

The text of a decimal number: an optional sign, digits with an optional point,
and an optional power of ten. One digit before or after the point is enough.
Nothing may stand before or after the number.
-/

namespace Flowchart

namespace Decimal

/-- A sign at the head of a text: whether it is a minus, and what follows. -/
def sign : List Char → Bool × List Char
  | '-' :: rest => (true, rest)
  | '+' :: rest => (false, rest)
  | cs => (false, cs)

/-- The power of ten at the end of a number, which may be left out. -/
def power? : List Char → Option Int
  | [] => some 0
  | e :: rest =>
      if e = 'e' ∨ e = 'E' then
        let (negative, ds) := sign rest
        if ds.isEmpty || !ds.all Char.isDigit then none
        else some (if negative then -(ofDigits ds : Int) else ofDigits ds)
      else none

/-- The number that a text spells. -/
def ofText? (cs : List Char) : Option Decimal :=
  let (negative, cs) := sign cs
  let whole := cs.takeWhile Char.isDigit
  let rest := cs.dropWhile Char.isDigit
  let (fraction, rest) := match rest with
    | '.' :: tail => (tail.takeWhile Char.isDigit, tail.dropWhile Char.isDigit)
    | rest => ([], rest)
  if whole.isEmpty && fraction.isEmpty then none
  else (power? rest).map fun n =>
    ⟨negative, ofDigits (whole ++ fraction), n - fraction.length⟩

end Decimal

end Flowchart
