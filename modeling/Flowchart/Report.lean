import Flowchart.RunError

/-!
# Reports

What is shown to a user of the command line. A remark on a text is shown with
its severity, its hint and, if it has a place, a label on that place. An error
that is about no text is shown with its wording and a code alone.

## Main definitions

* `Report`: A remark or an error to be shown.
* `Report.label?`: The marked place.
* `RunError.reports`: What is shown for an error.
-/

namespace Flowchart

/-- A remark on a text, or an error that is about no text. -/
inductive Report where
  | remark (diagnostic : Diagnostic)
  | failure (error : RunError)
deriving DecidableEq, Repr

/-- A mark on a range of bytes, with a caption or without. -/
structure Label where
  caption : Option String
  offset : Nat
  length : Nat
deriving DecidableEq, Repr

/-- The code of an error, which a text without a graph does not have. -/
def RunError.code? : RunError → Option String
  | io _ => some "flowsketch::io"
  | parse _ _ => none
  | config _ => some "flowsketch::config"
  | serialize _ => some "flowsketch::serialize"

namespace Report

/-- The main line of a report. -/
def text : Report → String
  | remark d => d.message
  | failure e => e.display

/-- The short name of the cause. -/
def code? : Report → Option String
  | remark d => d.code.map Code.text
  | failure e => e.code?

/-- How bad it is. Only a remark says so. -/
def severity? : Report → Option Severity
  | remark d => some d.severity
  | failure _ => none

/-- The hint. -/
def help? : Report → Option String
  | remark d => d.help
  | failure _ => none

/-- Whether the text is shown beside the report. -/
def showsSource : Report → Bool
  | remark _ => true
  | failure _ => false

/-- The marked place of a remark that has one. The caption says what the cause
    is. -/
def label? : Report → Option Label
  | remark d => d.location.map fun location =>
      ⟨d.code.map Code.description, location.span.start, location.span.length⟩
  | failure _ => none

end Report

/-- The reports of remarks, in their order. -/
def Diagnostic.reports (ds : List Diagnostic) : List Report := ds.map Report.remark

/-- What is shown for an error: each remark if a text has no graph, and
    otherwise the error itself. -/
def RunError.reports : RunError → List Report
  | parse error _ => Diagnostic.reports error.diagnostics
  | e => [.failure e]

end Flowchart
