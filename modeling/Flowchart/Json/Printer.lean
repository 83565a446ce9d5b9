import Flowchart.Json.Basic

/-!
# Writing JSON

The text of a value, either on one line without blanks or with each item and
each member on a line of its own, indented by two spaces for each level. An
array or an object that holds nothing is written without a line break.

## Main definitions

* `Json.quote`: The text of a string.
* `Json.pretty`: The text of a value on many lines.
* `Json.compact`: The text of a value on one line.
-/

namespace Flowchart

namespace Json

/-- A hexadecimal digit. -/
def hexDigit (n : Nat) : Char := (Nat.toDigits 16 n).headD '0'

/-- The text of a character within a string. Only a quote, a backslash and
    control characters are escaped. -/
def escape (c : Char) : List Char :=
  match c with
  | '"' => ['\\', '"']
  | '\\' => ['\\', '\\']
  | '\x08' => ['\\', 'b']
  | '\x0c' => ['\\', 'f']
  | '\n' => ['\\', 'n']
  | '\r' => ['\\', 'r']
  | '\t' => ['\\', 't']
  | c =>
      if c.toNat < 0x20 then
        ['\\', 'u', '0', '0', hexDigit (c.toNat / 16), hexDigit (c.toNat % 16)]
      else [c]

/-- The text of a string. -/
def quote (s : String) : List Char := '"' :: (s.toList.flatMap escape ++ ['"'])

/-- A new line indented by so many levels. -/
def newLine (level : Nat) : List Char := '\n' :: List.replicate (2 * level) ' '

mutual

/-- The text of a value on a level. A string that denotes no text is written as
    nothing. -/
def prettyAt (level : Nat) : Json → List Char
  | .null => "null".toList
  | .bool true => "true".toList
  | .bool false => "false".toList
  | .number n => n.text
  | .string (some s) => quote s
  | .string none => quote ""
  | .array [] => ['[', ']']
  | .array (item :: items) =>
      '[' :: (newLine (level + 1) ++ prettyAt (level + 1) item ++ prettyItems (level + 1) items ++
        newLine level ++ [']'])
  | .object [] => ['\x7b', '\x7d']
  | .object (m :: ms) =>
      '\x7b' :: (newLine (level + 1) ++ prettyMember (level + 1) m ++
        prettyMembers (level + 1) ms ++ newLine level ++ ['\x7d'])

/-- The text of the items after the first, each behind a comma. -/
def prettyItems (level : Nat) : List Json → List Char
  | [] => []
  | item :: items => ',' :: (newLine level ++ prettyAt level item ++ prettyItems level items)

/-- The text of the members after the first, each behind a comma. -/
def prettyMembers (level : Nat) : List (Option String × Json) → List Char
  | [] => []
  | m :: ms => ',' :: (newLine level ++ prettyMember level m ++ prettyMembers level ms)

/-- The text of a member. -/
def prettyMember (level : Nat) : Option String × Json → List Char
  | (key, value) => quote (key.getD "") ++ [':', ' '] ++ prettyAt level value

end

/-- The text of a value on many lines. -/
def pretty (value : Json) : String := String.ofList (prettyAt 0 value)

mutual

/-- The characters of a value on one line. -/
def compactChars : Json → List Char
  | .null => "null".toList
  | .bool true => "true".toList
  | .bool false => "false".toList
  | .number n => n.text
  | .string (some s) => quote s
  | .string none => quote ""
  | .array [] => ['[', ']']
  | .array (item :: items) => '[' :: (compactChars item ++ compactItems items ++ [']'])
  | .object [] => ['\x7b', '\x7d']
  | .object (m :: ms) => '\x7b' :: (compactMember m ++ compactMembers ms ++ ['\x7d'])

/-- The characters of the items after the first, each behind a comma. -/
def compactItems : List Json → List Char
  | [] => []
  | item :: items => ',' :: (compactChars item ++ compactItems items)

/-- The characters of the members after the first, each behind a comma. -/
def compactMembers : List (Option String × Json) → List Char
  | [] => []
  | m :: ms => ',' :: (compactMember m ++ compactMembers ms)

/-- The characters of a member. -/
def compactMember : Option String × Json → List Char
  | (key, value) => quote (key.getD "") ++ ':' :: compactChars value

end

/-- The text of a value on one line. -/
def compact (value : Json) : String := String.ofList (compactChars value)

end Json

end Flowchart
