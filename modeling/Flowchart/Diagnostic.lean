import Flowchart.Source.Line

/-!
# Diagnostics

What a reader of flowcharts has to say about a text: an error, without which
there is no graph, or a warning about a part that was passed over. A
diagnostic may have a code, a place in the text and a hint.

## Main definitions

* `Severity`, `Code`, `Diagnostic`: The parts of a remark.
* `Diagnostic.display`: Its one-line text.
* `ParseError`: The remarks that take the place of a graph.
-/

namespace Flowchart

/-- How bad a remark is. -/
inductive Severity where
  | error
  | warning
deriving DecidableEq, Repr

namespace Severity

/-- The word for a severity. -/
def text : Severity → String
  | error => "error"
  | warning => "warning"

/-- Whether there can be no graph. -/
def isError : Severity → Bool
  | error => true
  | warning => false

end Severity

/-- The known causes of remarks. -/
inductive Code where
  /-- The text is blank. -/
  | emptyInput
  /-- The reader failed. -/
  | internalFailure
  /-- No form accepts a line. -/
  | unrecognizedLine
  /-- A property of a style is unknown or has an invalid value. -/
  | invalidProperty
deriving DecidableEq, Repr

namespace Code

/-- The short name of a cause. -/
def text : Code → String
  | emptyInput => "E001"
  | internalFailure => "E002"
  | unrecognizedLine => "E100"
  | invalidProperty => "E101"

/-- The cause with a short name. -/
def ofText? : String → Option Code
  | "E001" => some emptyInput
  | "E002" => some internalFailure
  | "E100" => some unrecognizedLine
  | "E101" => some invalidProperty
  | _ => none

/-- What a cause is. -/
def description : Code → String
  | emptyInput => "empty input"
  | internalFailure => "internal parser failure"
  | unrecognizedLine => "unrecognized line"
  | invalidProperty => "invalid style property"

end Code

/-- A remark on a text. -/
structure Diagnostic where
  severity : Severity
  code : Option Code
  message : String
  location : Option Location
  help : Option String
deriving DecidableEq, Repr

namespace Diagnostic

/-- The remark on one line. -/
def display (d : Diagnostic) : String :=
  d.severity.text ++
    (match d.code with
      | some code => "[" ++ code.text ++ "]"
      | none => "") ++
    ": " ++ d.message

/-- The text is blank. -/
def emptyInput : Diagnostic :=
  ⟨.error, some .emptyInput, "Empty input", none,
    some "write at least one node or edge, e.g. `A --> B`"⟩

/-- No form accepts a line. -/
def unrecognizedLine (line : Source.Line) : Diagnostic :=
  ⟨.warning, some .unrecognizedLine, "unrecognized line `" ++ line.text ++ "`",
    some line.location, some "edges are written `A --> B`, `A -.-> B` or `A -.- B`"⟩

/-- A property of a style was refused, with the reason as a hint. -/
def invalidProperty (key value reason : String) (location : Location) : Diagnostic :=
  ⟨.warning, some .invalidProperty, "invalid style property `" ++ key ++ ":" ++ value ++ "`",
    some location, some reason⟩

end Diagnostic

/-- The remarks that take the place of a graph, the first of them leading. -/
structure ParseError where
  diagnostics : List Diagnostic
deriving DecidableEq, Repr

namespace ParseError

/-- The message of the leading remark. -/
def message (e : ParseError) : String :=
  match e.diagnostics with
  | d :: _ => d.message
  | [] => ""

/-- The place of the leading remark. -/
def location (e : ParseError) : Option Location :=
  match e.diagnostics with
  | d :: _ => d.location
  | [] => none

/-- The leading remark on one line, with the number of the others. -/
def display (e : ParseError) : String :=
  match e.diagnostics with
  | [] => ""
  | [d] => d.display
  | d :: rest => d.display ++ " (+" ++ toString rest.length ++ " more)"

end ParseError

end Flowchart
