import Flowchart.Text.Blank

/-!
# Source Lines

A flowchart text is read line by line. A line ends with a line feed, and the
carriage returns before it belong to the ending. What is left is trimmed;
blank lines and comments, which start with two percent signs, say nothing. The
others are significant, and each knows where its trimmed text stands: its line
and column count from one, the column in characters, and its span counts bytes
of the whole text.

## Main definitions

* `Span`, `Location`: A place in the text.
* `Source.rawLines`: The text cut after each line feed.
* `Source.lines`: The significant lines.
-/

namespace Flowchart

/-- A range of bytes, its end excluded. -/
structure Span where
  start : Nat
  stop : Nat
deriving DecidableEq, Repr

namespace Span

/-- The number of bytes in a span. -/
def length (s : Span) : Nat := s.stop - s.start

/-- Whether a span holds no byte. -/
def isEmpty (s : Span) : Bool := s.stop ≤ s.start

end Span

/-- A line and a column, each counted from one, and a range of bytes. -/
structure Location where
  line : Nat
  column : Nat
  span : Span
deriving DecidableEq, Repr

namespace Source

/-- A line with its trimmed text and the place of that text. -/
structure Line where
  text : String
  location : Location
deriving DecidableEq, Repr

/-- The text cut after each line feed. A last line without one is kept, and
    nothing follows a last line feed. -/
def rawLines : List Char → List (List Char)
  | [] => []
  | c :: cs =>
      if c = '\n' then [c] :: rawLines cs
      else match rawLines cs with
        | [] => [[c]]
        | line :: lines => (c :: line) :: lines

/-- Whether a character belongs to the ending of a line. -/
def isLineEnd (c : Char) : Bool := c == '\n' || c == '\r'

/-- The line without its ending. -/
def content (raw : List Char) : List Char := Text.dropRightWhile isLineEnd raw

/-- Whether a trimmed line says nothing: it is empty or a comment. -/
def isSilent : List Char → Bool
  | [] => true
  | '%' :: '%' :: _ => true
  | _ => false

/-- The line with a number whose first byte is at `offset`, if it says
    something. -/
def line? (number offset : Nat) (raw : List Char) : Option Line :=
  let content := content raw
  let text := Text.trim content
  if isSilent text then none
  else
    let indent := content.takeWhile Text.isBlank
    let start := offset + Text.byteLength indent
    some ⟨String.ofList text,
      ⟨number, indent.length + 1, ⟨start, start + Text.byteLength text⟩⟩⟩

/-- The significant lines among raw ones, of which the first has the given
    number and offset. -/
def linesFrom : Nat → Nat → List (List Char) → List Line
  | _, _, [] => []
  | number, offset, raw :: raws =>
      let rest := linesFrom (number + 1) (offset + Text.byteLength raw) raws
      match line? number offset raw with
      | some line => line :: rest
      | none => rest

/-- The significant lines of a text. -/
def lines (source : String) : List Line := linesFrom 1 0 (rawLines source.toList)

end Source

end Flowchart
