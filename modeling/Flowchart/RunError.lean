import Flowchart.Diagnostic

/-!
# Errors of a Run

Why a run of the program ends without a drawing. A layout is not among the
reasons, because a graph is always laid out.

## Main definitions

* `RunError`: The reasons.
* `RunError.display`: Their wording.
-/

namespace Flowchart

/-- Why a run ends without a drawing. -/
inductive RunError where
  /-- A file cannot be read or written. -/
  | io (text : String)
  /-- A text has no graph. The text is kept to be shown with the remarks. -/
  | parse (error : ParseError) (source : String)
  /-- The configuration cannot be used. -/
  | config (text : String)
  /-- A stored drawing cannot be read. -/
  | serialize (text : String)
deriving DecidableEq, Repr

/-- The wording of an error. -/
def RunError.display : RunError → String
  | io text => "I/O error: " ++ text
  | parse error _ => error.display
  | config text => "Configuration error: " ++ text
  | serialize text => "Serialization error: " ++ text

end Flowchart
