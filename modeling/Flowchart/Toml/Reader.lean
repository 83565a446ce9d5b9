import Flowchart.Toml.Scalar

/-!
# Reading TOML

A document is read expression by expression: a header, a key with its value, or
nothing, each up to the end of its line. Arrays and inline tables may run over
several lines, hold comments and end in a comma. They may nest to a limited
depth, to which the parts of a key are limited too. A byte order mark before the
document is passed over.

## Main definitions

* `Toml.Reader.value?`: The value at the head of a text.
* `Toml.Reader.document?`: The members of a document.
* `Toml.parse?`: The same for a string.
-/

namespace Flowchart

namespace Toml

namespace Reader

/-! ## Blanks and comments -/

/-- A blank within a line. -/
def isBlank (c : Char) : Bool := c == ' ' || c == '\t'

/-- The text after the blanks it starts with. -/
def skipBlanks (cs : List Char) : List Char := cs.dropWhile isBlank

/-- A character that a comment or a string may hold. -/
def isPrintable (c : Char) : Bool := c == '\t' || (0x20 ≤ c.toNat && c.toNat != 0x7F)

/-- The text after a line feed, with or without a carriage return before it. -/
def newline? : List Char → Option (List Char)
  | '\n' :: rest => some rest
  | '\r' :: '\n' :: rest => some rest
  | _ => none

/-- The text after a comment, if it starts with one. -/
def skipComment (cs : List Char) : List Char :=
  match cs with
  | '#' :: rest => rest.dropWhile isPrintable
  | cs => cs

/-- The text after the end of a line, which is also the end of the text. -/
def lineEnd? (cs : List Char) : Option (List Char) :=
  match skipComment (skipBlanks cs) with
  | [] => some []
  | cs => newline? cs

/-- The text after blanks, comments and line feeds. -/
def skipSpace (cs : List Char) : List Char :=
  go cs.length cs
where
  go : Nat → List Char → List Char
    | fuel + 1, cs =>
        let cs := skipComment (skipBlanks cs)
        match newline? cs with
        | some rest => go fuel rest
        | none => cs
    | 0, cs => cs

/-! ## Strings -/

/-- The value of a hexadecimal digit. -/
def hex? (c : Char) : Option Nat := Scalar.digitIn 16 c

/-- The character whose number has the given hexadecimal digits. -/
def scalarOf? (cs : List Char) : Option Char := do
  let ds ← cs.mapM hex?
  let n := ds.foldl (fun n d => 16 * n + d) 0
  if n.isValidChar then some (Char.ofNat n) else none

/-- The character of an escape, and the text after it. -/
def escape? : List Char → Option (Char × List Char)
  | 'b' :: rest => some ('\x08', rest)
  | 't' :: rest => some ('\t', rest)
  | 'n' :: rest => some ('\n', rest)
  | 'f' :: rest => some ('\x0c', rest)
  | 'r' :: rest => some ('\r', rest)
  | 'e' :: rest => some ('\x1b', rest)
  | '"' :: rest => some ('"', rest)
  | '\\' :: rest => some ('\\', rest)
  | 'x' :: rest => digits 2 rest
  | 'u' :: rest => digits 4 rest
  | 'U' :: rest => digits 8 rest
  | _ => none
where
  digits (n : Nat) (rest : List Char) : Option (Char × List Char) :=
    if rest.length < n then none else (scalarOf? (rest.take n)).map fun c => (c, rest.drop n)

/-- The rest of a string between single double quotes. -/
def basic? : Nat → List Char → List Char → Option (List Char × List Char)
  | 0, _, _ => none
  | _, _, [] => none
  | _, done, '"' :: rest => some (done.reverse, rest)
  | fuel + 1, done, '\\' :: rest =>
      match escape? rest with
      | some (c, rest) => basic? fuel (c :: done) rest
      | none => none
  | fuel + 1, done, c :: rest => if isPrintable c then basic? fuel (c :: done) rest else none

/-- The rest of a string between single quotes, which knows no escapes. -/
def literal? (cs : List Char) : Option (List Char × List Char) :=
  let text := cs.takeWhile fun c => c != '\'' && isPrintable c
  match cs.drop text.length with
  | '\'' :: rest => some (text, rest)
  | _ => none

/-- The end of a string of several lines: three quotes, before which two more
    may belong to the string. -/
def closing? (quote : Char) (cs : List Char) : Option (List Char × List Char) :=
  let quotes := (cs.takeWhile (· == quote)).length
  if quotes < 3 then none
  else
    let inside := min (quotes - 3) 2
    some (List.replicate inside quote, cs.drop (inside + 3))

/-- The text after a backslash at the end of a line, which takes all blanks and
    line feeds with it. -/
def continuation? (cs : List Char) : Option (List Char) :=
  match newline? (skipBlanks cs) with
  | some rest => some (go rest.length rest)
  | none => none
where
  go : Nat → List Char → List Char
    | fuel + 1, cs =>
        match newline? (skipBlanks cs) with
        | some rest => go fuel rest
        | none => skipBlanks cs
    | 0, cs => cs

/-- The rest of a string of several lines, between three quotes of a kind. Only
    double quotes know escapes. -/
def block? (quote : Char) : Nat → List Char → List Char → Option (List Char × List Char)
  | 0, _, _ => none
  | fuel + 1, done, cs =>
      match closing? quote cs with
      | some (inside, rest) => some (done.reverse ++ inside, rest)
      | none =>
          match cs with
          | [] => none
          | '\\' :: rest =>
              if quote != '"' then block? quote fuel ('\\' :: done) rest
              else match continuation? rest with
                | some rest => block? quote fuel done rest
                | none =>
                    match escape? rest with
                    | some (c, rest) => block? quote fuel (c :: done) rest
                    | none => none
          | c :: rest =>
              match newline? cs with
              | some rest => block? quote fuel ('\n' :: done) rest
              | none => if isPrintable c then block? quote fuel (c :: done) rest else none

/-- The text of a block without the line feed right after its opening. -/
def blockStart (cs : List Char) : List Char := (newline? cs).getD cs

/-- The string at the head of a text. -/
def string? (cs : List Char) : Option (Toml × List Char) :=
  let found := match cs with
    | '"' :: '"' :: '"' :: rest => block? '"' (cs.length + 1) [] (blockStart rest)
    | '\'' :: '\'' :: '\'' :: rest => block? '\'' (cs.length + 1) [] (blockStart rest)
    | '"' :: rest => basic? (cs.length + 1) [] rest
    | '\'' :: rest => literal? rest
    | _ => none
  found.map fun (text, rest) => (.string (String.ofList text), rest)

/-! ## Keys -/

/-- A character of a key without quotes. -/
def isKeyChar (c : Char) : Bool := c.isAlphanum || c == '_' || c == '-'

/-- One part of a key at the head of a text. -/
def simpleKey? (cs : List Char) : Option (String × List Char) :=
  match cs with
  | '"' :: rest =>
      (basic? (cs.length + 1) [] rest).map fun (key, rest) => (String.ofList key, rest)
  | '\'' :: rest => (literal? rest).map fun (key, rest) => (String.ofList key, rest)
  | cs =>
      let key := cs.takeWhile isKeyChar
      if key.isEmpty then none else some (String.ofList key, cs.dropWhile isKeyChar)

/-- How many brackets may be open at once, and how many parts a key may have. -/
def depthLimit : Nat := 80

/-- The parts of a key at the head of a text, the last of them apart, and the
    text after it and any blanks. The first number is that of the parts that may
    still come. -/
def keyParts? : Nat → List Char → Option ((List String × String) × List Char)
  | 0, _ => none
  | parts + 1, cs => do
      let (part, rest) ← simpleKey? (skipBlanks cs)
      match skipBlanks rest with
      | '.' :: rest => do
          let ((path, last), rest) ← keyParts? parts rest
          return ((part :: path, last), rest)
      | rest => return (([], part), rest)

/-- The key at the head of a text. -/
def key? (cs : List Char) : Option ((List String × String) × List Char) :=
  keyParts? depthLimit cs

/-! ## Values -/

/-- A character of a value without quotes or brackets. -/
def isWordChar (c : Char) : Bool :=
  c.isAlphanum || c == '_' || c == '-' || c == '+' || c == '.' || c == ':'

/-- The value at the head of a text that has no brackets. A time may follow a
    date after one blank. -/
def plain? (cs : List Char) : Option (Toml × List Char) :=
  match cs with
  | '"' :: _ => string? cs
  | '\'' :: _ => string? cs
  | cs =>
      let word := cs.takeWhile isWordChar
      let rest := cs.dropWhile isWordChar
      let (word, rest) := match rest with
        | ' ' :: c :: tail =>
            if Scalar.isDate word && c.isDigit then
              (word ++ ' ' :: (c :: tail).takeWhile isWordChar, (c :: tail).dropWhile isWordChar)
            else (word, rest)
        | rest => (word, rest)
      (Scalar.value? word).map fun value => (value, rest)

/-- A reader of the value at the head of a text. -/
abbrev ValueReader := List Char → Option (Toml × List Char)

/-- The rest of an array, after the items read before. -/
def items? (read : ValueReader) : Nat → List Toml → List Char → Option (Toml × List Char)
  | 0, _, _ => none
  | fuel + 1, done, cs =>
      match skipSpace cs with
      | ']' :: rest => some (.array false done.reverse, rest)
      | cs => do
          let (item, rest) ← read cs
          match skipSpace rest with
          | ',' :: rest => items? read fuel (item :: done) rest
          | ']' :: rest => some (.array false (item :: done).reverse, rest)
          | _ => none

/-- The members of an inline table with the key and value at the head of a text.
    The equals sign and the value may each stand on a line of their own. -/
def keyValue? (read : ValueReader) (ms : Members) (cs : List Char) :
    Option (Members × List Char) := do
  let ((path, key), rest) ← key? cs
  match skipSpace rest with
  | '=' :: rest => do
      let (value, rest) ← read (skipSpace rest)
      return (← ms.addDotted? key value path, rest)
  | _ => none

/-- The rest of an inline table, after the members read before. -/
def members? (read : ValueReader) : Nat → Members → List Char → Option (Toml × List Char)
  | 0, _, _ => none
  | fuel + 1, ms, cs =>
      match skipSpace cs with
      | '\x7d' :: rest => some (.table .inlined ms, rest)
      | cs => do
          let (ms, rest) ← keyValue? read ms cs
          match skipSpace rest with
          | ',' :: rest => members? read fuel ms rest
          | '\x7d' :: rest => some (.table .inlined ms, rest)
          | _ => none

/-- The value at the head of a text, with at most so many open brackets. -/
def value? : Nat → ValueReader
  | 0, cs => plain? cs
  | depth + 1, cs =>
      match cs with
      | '[' :: rest => items? (value? depth) cs.length [] rest
      | '\x7b' :: rest => members? (value? depth) cs.length [] rest
      | cs => plain? cs

/-! ## Documents -/

/-- A document that was read so far: its members, and the path to the table
    that keys are added to. -/
structure State where
  root : Members
  current : List String

/-- The closing brackets of a header. -/
def closeHeader? (brackets : List Char) (cs : List Char) : Option (List Char) :=
  if brackets.isPrefixOf cs then some (cs.drop brackets.length) else none

/-- The state after the expression at the head of a text. -/
def expression? (s : State) (cs : List Char) : Option (State × List Char) :=
  match cs with
  | '[' :: '[' :: rest => do
      let ((path, key), rest) ← key? rest
      let rest ← closeHeader? [']', ']'] rest
      return (⟨← s.root.openArray? path key, path ++ [key]⟩, rest)
  | '[' :: rest => do
      let ((path, key), rest) ← key? rest
      let rest ← closeHeader? [']'] rest
      return (⟨← s.root.openTable? path key, path ++ [key]⟩, rest)
  | cs => do
      let ((path, key), rest) ← key? cs
      match rest with
      | '=' :: rest => do
          let (value, rest) ← value? depthLimit (skipBlanks rest)
          let root ← s.root.along? (fun ms => ms.addDotted? key value path) s.current
          return (⟨root, s.current⟩, rest)
      | _ => none

/-- The state after the rest of a document. -/
def expressions? : Nat → State → List Char → Option State
  | 0, _, _ => none
  | fuel + 1, s, cs =>
      match skipSpace cs with
      | [] => some s
      | cs => do
          let (s, rest) ← expression? s cs
          expressions? fuel s (← lineEnd? rest)

/-- The members of a document. -/
def document? (cs : List Char) : Option Members := do
  let cs := match cs with
    | '\ufeff' :: rest => rest
    | cs => cs
  let s ← expressions? (cs.length + 1) ⟨[], []⟩ cs
  return s.root

end Reader

/-- The members of a document. -/
def parse? (text : String) : Option Members := Reader.document? text.toList

end Toml

end Flowchart
