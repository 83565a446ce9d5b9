import Flowchart.Json.Basic

/-!
# Reading JSON

The text is cut into tokens, and the tokens are put together with a stack of
the arrays and objects that are still open. So a text may nest as deep as it
likes.

## Main definitions

* `Json.Token`: The tokens.
* `Json.tokens?`: The tokens of a text.
* `Json.Builder`: The values that are still open.
* `Json.parse?`: The value of a text.
-/

namespace Flowchart

namespace Json

/-- The tokens of a text. -/
inductive Token where
  | openArray
  | closeArray
  | openObject
  | closeObject
  | comma
  | colon
  | null
  | bool (value : Bool)
  | number (value : Number)
  | string (text : Option String)
deriving DecidableEq, Repr

/-! ## Strings -/

/-- The value of a hexadecimal digit. -/
def hexValue? (c : Char) : Option Nat :=
  if c.isDigit then some (c.toNat - '0'.toNat)
  else if 'a' ≤ c ∧ c ≤ 'f' then some (c.toNat - 'a'.toNat + 10)
  else if 'A' ≤ c ∧ c ≤ 'F' then some (c.toNat - 'A'.toNat + 10)
  else none

/-- The number that four hexadecimal digits spell. -/
def hex4? (a b c d : Char) : Option Nat := do
  let a ← hexValue? a
  let b ← hexValue? b
  let c ← hexValue? c
  let d ← hexValue? d
  return ((a * 16 + b) * 16 + c) * 16 + d

/-- The character that a short escape stands for. -/
def shortEscape? : Char → Option Char
  | '"' => some '"'
  | '\\' => some '\\'
  | '/' => some '/'
  | 'b' => some '\x08'
  | 'f' => some '\x0c'
  | 'n' => some '\n'
  | 'r' => some '\r'
  | 't' => some '\t'
  | _ => none

/-- The code points and halves of surrogate pairs in the rest of a string, and
    the text after its closing quote. They are collected back to front. -/
def stringBody (points : List Nat) : List Char → Option (List Nat × List Char)
  | [] => none
  | '"' :: rest => some (points.reverse, rest)
  | '\\' :: 'u' :: a :: b :: c :: d :: rest =>
      match hex4? a b c d with
      | some point => stringBody (point :: points) rest
      | none => none
  | '\\' :: e :: rest =>
      match shortEscape? e with
      | some c => stringBody (c.toNat :: points) rest
      | none => none
  | c :: rest => if c.toNat < 0x20 then none else stringBody (c.toNat :: points) rest

/-- Whether a number is the first half of a surrogate pair. -/
def isHighHalf (n : Nat) : Bool := 0xD800 ≤ n && n < 0xDC00

/-- Whether a number is the second half of a surrogate pair. -/
def isLowHalf (n : Nat) : Bool := 0xDC00 ≤ n && n < 0xE000

/-- The characters of code points and halves of surrogate pairs, unless a half
    stands alone. They are collected back to front. -/
def joinHalves (cs : List Char) : List Nat → Option (List Char)
  | [] => some cs.reverse
  | [n] => if isHighHalf n || isLowHalf n then none else some (Char.ofNat n :: cs).reverse
  | n :: m :: rest =>
      if isLowHalf n then none
      else if isHighHalf n then
        if isLowHalf m then
          joinHalves (Char.ofNat (0x10000 + (n - 0xD800) * 0x400 + (m - 0xDC00)) :: cs) rest
        else none
      else joinHalves (Char.ofNat n :: cs) (m :: rest)

/-- The string token whose opening quote was read. -/
def string? (cs : List Char) : Option (Token × List Char) :=
  (stringBody [] cs).map fun (points, rest) =>
    (.string ((joinHalves [] points).map String.ofList), rest)

/-! ## Numbers -/

/-- The exponent after the digits of a number, if there is one. -/
def exponent? : List Char → Option (Option Int × List Char)
  | e :: rest =>
      if e = 'e' ∨ e = 'E' then
        let (negative, rest) := match rest with
          | '-' :: rest => (true, rest)
          | '+' :: rest => (false, rest)
          | rest => (false, rest)
        let ds := rest.takeWhile Char.isDigit
        if ds.isEmpty then none
        else
          let n : Int := Decimal.ofDigits ds
          some (some (if negative then -n else n), rest.dropWhile Char.isDigit)
      else some (none, e :: rest)
  | [] => some (none, [])

/-- The digits after the point of a number, if there is one. -/
def fraction? : List Char → Option (List Char × List Char)
  | '.' :: rest =>
      let ds := rest.takeWhile Char.isDigit
      if ds.isEmpty then none else some (ds, rest.dropWhile Char.isDigit)
  | cs => some ([], cs)

/-- The digits before the point of a number. A zero stands alone. -/
def whole? : List Char → Option (List Char × List Char)
  | '0' :: rest => if rest.head?.any Char.isDigit then none else some (['0'], rest)
  | cs =>
      let ds := cs.takeWhile Char.isDigit
      if ds.isEmpty then none else some (ds, cs.dropWhile Char.isDigit)

/-- The number token at the head of a text. -/
def number? (cs : List Char) : Option (Token × List Char) := do
  let (negative, rest) := match cs with
    | '-' :: rest => (true, rest)
    | cs => (false, cs)
  let (whole, rest) ← whole? rest
  let (fraction, rest) ← fraction? rest
  let (exponent, rest) ← exponent? rest
  return (.number ⟨negative, whole, fraction, exponent⟩, rest)

/-! ## Tokens -/

/-- A blank between tokens. -/
def isBlank (c : Char) : Bool := c == ' ' || c == '\n' || c == '\t' || c == '\r'

/-- The token at the head of a text that does not start with a blank. -/
def token? : List Char → Option (Token × List Char)
  | '[' :: rest => some (.openArray, rest)
  | ']' :: rest => some (.closeArray, rest)
  | '\x7b' :: rest => some (.openObject, rest)
  | '\x7d' :: rest => some (.closeObject, rest)
  | ',' :: rest => some (.comma, rest)
  | ':' :: rest => some (.colon, rest)
  | '"' :: rest => string? rest
  | 'n' :: 'u' :: 'l' :: 'l' :: rest => some (.null, rest)
  | 't' :: 'r' :: 'u' :: 'e' :: rest => some (.bool true, rest)
  | 'f' :: 'a' :: 'l' :: 's' :: 'e' :: rest => some (.bool false, rest)
  | cs => number? cs

/-- The tokens of a text, after those collected back to front. A token takes up
    a character at least. -/
def tokensFrom : Nat → List Token → List Char → Option (List Token)
  | 0, _, _ => none
  | fuel + 1, done, cs =>
      match cs.dropWhile isBlank with
      | [] => some done.reverse
      | c :: cs =>
          match token? (c :: cs) with
          | some (t, rest) => tokensFrom fuel (t :: done) rest
          | none => none

/-- The tokens of a text. -/
def tokens? (cs : List Char) : Option (List Token) := tokensFrom (cs.length + 1) [] cs

/-! ## Values -/

/-- An array or an object that is still open, its parts back to front. -/
inductive Frame where
  | array (items : List Json)
  | object (members : List (Option String × Json)) (key : Option String)

/-- What may come next. -/
inductive Expected where
  | value
  | valueOrClose
  | key (members : List (Option String × Json))
  | keyOrClose
  | colon
  | commaOrClose
  | nothing (whole : Json)

/-- The arrays and objects that are still open, the innermost first, and what
    may come next. -/
structure Builder where
  stack : List Frame
  expected : Expected

namespace Builder

/-- The state before the first token. -/
def start : Builder := ⟨[], .value⟩

/-- The state after a value is complete. -/
def complete (stack : List Frame) (value : Json) : Builder :=
  match stack with
  | [] => ⟨[], .nothing value⟩
  | .array items :: stack => ⟨.array (value :: items) :: stack, .commaOrClose⟩
  | .object members key :: stack =>
      ⟨.object ((key, value) :: members) none :: stack, .commaOrClose⟩

/-- The state after a token that starts a value, or is one. -/
def value? (stack : List Frame) : Token → Option Builder
  | .openArray => some ⟨.array [] :: stack, .valueOrClose⟩
  | .openObject => some ⟨stack, .keyOrClose⟩
  | .null => some (complete stack .null)
  | .bool b => some (complete stack (.bool b))
  | .number n => some (complete stack (.number n))
  | .string s => some (complete stack (.string s))
  | _ => none

/-- The state after the end of the innermost value, or a comma in it. -/
def close? : List Frame → Token → Option Builder
  | .array items :: stack, .closeArray => some (complete stack (.array items.reverse))
  | .object members _ :: stack, .closeObject => some (complete stack (.object members.reverse))
  | .array items :: stack, .comma => some ⟨.array items :: stack, .value⟩
  | .object members _ :: stack, .comma => some ⟨stack, .key members⟩
  | _, _ => none

/-- The state after a token. -/
def step? (b : Builder) (t : Token) : Option Builder :=
  match b.expected, t with
  | .value, t => value? b.stack t
  | .valueOrClose, .closeArray => close? b.stack .closeArray
  | .valueOrClose, t => value? b.stack t
  | .key members, .string key => some ⟨.object members key :: b.stack, .colon⟩
  | .keyOrClose, .string key => some ⟨.object [] key :: b.stack, .colon⟩
  | .keyOrClose, .closeObject => some (complete b.stack (.object []))
  | .colon, .colon => some ⟨b.stack, .value⟩
  | .commaOrClose, t => close? b.stack t
  | _, _ => none

/-- The value of tokens. -/
def build? (ts : List Token) : Option Json := do
  let b ← ts.foldlM step? start
  match b.expected with
  | .nothing value => some value
  | _ => none

end Builder

/-- The value of a text. -/
def parse? (text : String) : Option Json := do Builder.build? (← tokens? text.toList)

end Json

end Flowchart
