import Flowchart.Decimal.Basic
import Flowchart.Toml.Basic

/-!
# TOML Scalars

The values that are written without quotes or brackets: truth values, integers
in four bases, floats, and dates and times. Digits may be grouped by single
underscores between them, and a decimal integer has no leading zero. An integer
that does not fit into 128 bits is out of range, and so is a float that is too
large for a double.

## Main definitions

* `Toml.Scalar.value?`: The value of a word.
* `Toml.Scalar.isDate`: Whether a word is a date, which a time may follow.
-/

namespace Flowchart

namespace Toml

namespace Scalar

/-- A digit in one of the bases up to sixteen. -/
def digitIn (base : Nat) (c : Char) : Option Nat :=
  let value :=
    if c.isDigit then some (c.toNat - '0'.toNat)
    else if 'a' ≤ c ∧ c ≤ 'f' then some (c.toNat - 'a'.toNat + 10)
    else if 'A' ≤ c ∧ c ≤ 'F' then some (c.toNat - 'A'.toNat + 10)
    else none
  value.filter (· < base)

/-- The digits of a text without the underscores, each of which must stand
    between two digits. -/
def ungroup? (isDigit : Char → Bool) : List Char → Option (List Char)
  | [] => none
  | [c] => if isDigit c then some [c] else none
  | c :: '_' :: rest =>
      if isDigit c then (ungroup? isDigit rest).map (c :: ·) else none
  | c :: rest => if isDigit c then (ungroup? isDigit rest).map (c :: ·) else none

/-- The number that digits spell in a base. -/
def natural? (base : Nat) (cs : List Char) : Option Nat := do
  let ds ← ungroup? (fun c => (digitIn base c).isSome) cs
  return ds.foldl (fun n c => base * n + (digitIn base c).getD 0) 0

/-- Decimal digits without a leading zero. -/
def plainDigits? (cs : List Char) : Option (List Char) :=
  match cs with
  | '0' :: _ :: _ => none
  | cs => ungroup? Char.isDigit cs

/-- A sign at the head of a word, and what follows. -/
def sign : List Char → Bool × List Char
  | '-' :: rest => (true, rest)
  | '+' :: rest => (false, rest)
  | cs => (false, cs)

/-- An integer, as long as it fits into 128 bits. -/
def ofInt (n : Int) : Toml :=
  if -Int.pow 2 127 ≤ n ∧ n < Int.pow 2 128 then .integer n else .overflow

/-- The integer that a word spells. -/
def integer? (word : List Char) : Option Toml :=
  match word with
  | '0' :: 'x' :: rest => (natural? 16 rest).map (ofInt ·)
  | '0' :: 'o' :: rest => (natural? 8 rest).map (ofInt ·)
  | '0' :: 'b' :: rest => (natural? 2 rest).map (ofInt ·)
  | word => do
      let (negative, rest) := sign word
      let n : Int := Decimal.ofDigits (← plainDigits? rest)
      return ofInt (if negative then -n else n)

/-- The power of ten that the end of a float spells. -/
def power? : List Char → Option Int
  | [] => some 0
  | _ :: rest => do
      let (negative, rest) := sign rest
      let n : Int := Decimal.ofDigits (← ungroup? Char.isDigit rest)
      return if negative then -n else n

/-- A letter that starts the power of ten of a float. -/
def isPowerSign (c : Char) : Bool := c == 'e' || c == 'E'

/-- The decimal that a word with a point or a power of ten spells. -/
def decimal? (word : List Char) : Option Decimal := do
  let (negative, rest) := sign word
  let mantissa := rest.takeWhile (!isPowerSign ·)
  let power := rest.dropWhile (!isPowerSign ·)
  let whole := mantissa.takeWhile (· != '.')
  let fraction ← match mantissa.dropWhile (· != '.') with
    | [] => some []
    | _ :: ds => ungroup? Char.isDigit ds
  let whole ← plainDigits? whole
  let exponent ← power? power
  return ⟨negative, Decimal.ofDigits (whole ++ fraction), exponent - fraction.length⟩

/-- The float that a word spells. -/
def float? (word : List Char) : Option Toml :=
  let (negative, rest) := sign word
  if rest = ['i', 'n', 'f'] then some (.float (if negative then -1 / 0 else 1 / 0))
  else if rest = ['n', 'a', 'n'] then some (.float (0 / 0))
  else do
    let x := (← decimal? word).toDouble
    return if x.isInf then .overflow else .float x

/-! ## Dates and times -/

/-- The number that a word of so many digits spells. -/
def fixed? (width : Nat) (cs : List Char) : Option Nat :=
  if cs.length = width ∧ cs.all Char.isDigit then some (Decimal.ofDigits cs) else none

/-- The number of days in a month. -/
def daysIn (year month : Nat) : Nat :=
  if month = 2 then
    if year % 4 = 0 ∧ (year % 100 ≠ 0 ∨ year % 400 = 0) then 29 else 28
  else if month = 4 ∨ month = 6 ∨ month = 9 ∨ month = 11 then 30
  else 31

/-- Whether a word is a date. -/
def isDate (cs : List Char) : Bool :=
  match cs with
  | [y₁, y₂, y₃, y₄, '-', m₁, m₂, '-', d₁, d₂] =>
      match fixed? 4 [y₁, y₂, y₃, y₄], fixed? 2 [m₁, m₂], fixed? 2 [d₁, d₂] with
      | some year, some month, some day =>
          1 ≤ month && month ≤ 12 && 1 ≤ day && day ≤ daysIn year month
      | _, _, _ => false
  | _ => false

/-- Whether two digits spell a number up to a greatest one. -/
def upTo (greatest : Nat) (a b : Char) : Bool := (fixed? 2 [a, b]).any (· ≤ greatest)

/-- Whether a text is the distance from universal time, or empty. -/
def isOffset : List Char → Bool
  | [] => true
  | ['Z'] => true
  | ['z'] => true
  | [s, h₁, h₂, ':', m₁, m₂] => (s == '+' || s == '-') && upTo 23 h₁ h₂ && upTo 59 m₁ m₂
  | _ => false

/-- What follows the minutes of a time: seconds, which may be left out and may
    have a fraction. -/
def afterMinutes? : List Char → Option (List Char)
  | ':' :: a :: b :: rest =>
      if upTo 60 a b then
        match rest with
        | '.' :: tail =>
            if tail.head?.any Char.isDigit then some (tail.dropWhile Char.isDigit) else none
        | rest => some rest
      else none
  | ':' :: _ => none
  | rest => some rest

/-- What follows the time at the head of a text. -/
def afterTime? : List Char → Option (List Char)
  | h₁ :: h₂ :: ':' :: m₁ :: m₂ :: rest =>
      if upTo 23 h₁ h₂ && upTo 59 m₁ m₂ then afterMinutes? rest else none
  | _ => none

/-- Whether a word is a date, a time of day, or both. -/
def isMoment (word : List Char) : Bool :=
  isDate word || afterTime? word == some [] ||
    (isDate (word.take 10) &&
      match word.drop 10 with
      | t :: time =>
          (t == 'T' || t == 't' || t == ' ') && (afterTime? time).any isOffset
      | [] => false)

/-- The value of a word. -/
def value? (word : List Char) : Option Toml :=
  if word = "true".toList then some (.bool true)
  else if word = "false".toList then some (.bool false)
  else
    (integer? word).or ((float? word).or (if isMoment word then some .moment else none))

end Scalar

end Toml

end Flowchart
