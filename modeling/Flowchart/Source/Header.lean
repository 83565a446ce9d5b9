import Flowchart.Source.Line

/-!
# Header

The first significant line of a flowchart may declare what it is and in which
direction it is drawn. The header is recognized without regard to ASCII case,
may end with one semicolon, and must be the whole line. Spaces and tabs are
the only blanks inside it.

## Main definitions

* `Direction`: The direction of a flowchart.
* `Source.header?`: The direction that a header line declares.
* `Source.stripHeader`: The lines of the body, and the declared direction.
-/

namespace Flowchart

/-- The direction in which a flowchart is drawn. -/
inductive Direction where
  | topDown
  | bottomUp
  | leftRight
  | rightLeft
deriving DecidableEq, Repr

/-- The direction that a word of the header names, whatever its case. -/
def Direction.ofToken? (token : String) : Option Direction :=
  match String.ofList (token.toList.map Char.toUpper) with
  | "TD" => some .topDown
  | "TB" => some .topDown
  | "BT" => some .bottomUp
  | "LR" => some .leftRight
  | "RL" => some .rightLeft
  | _ => none

namespace Source

/-- A blank between the tokens of a line. -/
def isGap (c : Char) : Bool := c == ' ' || c == '\t'

/-- The text after the blanks it starts with. -/
def skipGap (cs : List Char) : List Char := cs.dropWhile isGap

/-- Whether a word announces a flowchart. -/
def isHeaderWord (word : List Char) : Bool :=
  let lower := word.map Char.toLower
  lower == "graph".toList || lower == "flowchart".toList

/-- Whether a text may end a header: blanks around at most one semicolon. -/
def endsHeader (cs : List Char) : Bool :=
  match skipGap cs with
  | ';' :: rest => (skipGap rest).isEmpty
  | rest => rest.isEmpty

/-- The direction that a header line declares. -/
def header? (cs : List Char) : Option Direction :=
  let rest := cs.dropWhile Char.isAlpha
  let tail := skipGap rest
  if isHeaderWord (cs.takeWhile Char.isAlpha) ∧ tail.length < rest.length then
    match Direction.ofToken? (String.ofList (tail.takeWhile Char.isAlpha)) with
    | some direction =>
        if endsHeader (tail.dropWhile Char.isAlpha) then some direction else none
    | none => none
  else none

/-- The direction that the first of the lines declares, and the lines without
    that header. -/
def stripHeader : List Line → Option Direction × List Line
  | [] => (none, [])
  | line :: lines =>
      match header? line.text.toList with
      | some direction => (some direction, lines)
      | none => (none, line :: lines)

end Source

end Flowchart
