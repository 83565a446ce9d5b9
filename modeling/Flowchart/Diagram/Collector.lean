import Flowchart.Diagnostic
import Flowchart.Statement.Form

/-!
# Collectors

Remarks are collected while a text is read. An error is always kept, and makes
the reading fail in the end. A warning is kept only by a strict reading; a
lenient one drops it on the spot and leaves no more than a step that tells so.

## Main definitions

* `Step`: What is told about the reading of a text.
* `Collector`: The remarks so far, and what becomes of further ones.
* `Collector.emit`: The collector after a remark.
* `Collector.finish`: What the remarks come to.
-/

namespace Flowchart

/-- A step in the reading of a text. -/
inductive Step where
  /-- The number of lines after the header. -/
  | lines (count : Nat)
  /-- A form read a line. -/
  | matched (form : Form) (text : String)
  /-- No form read a line. -/
  | skipped (number : Nat) (text : String)
  /-- A remark was dropped. -/
  | discarded (diagnostic : Diagnostic)
  /-- An id was mentioned for the first time. -/
  | registered (id : String)
  /-- The numbers of nodes, edges and warnings of the diagram. -/
  | parsed (nodes edges warnings : Nat)
deriving DecidableEq, Repr

/-- The remarks that were collected so far. -/
structure Collector where
  diagnostics : List Diagnostic
  keepsWarnings : Bool
  hasErrors : Bool
deriving DecidableEq

namespace Collector

/-- The collector without remarks. -/
def new (keepsWarnings : Bool) : Collector := ⟨[], keepsWarnings, false⟩

/-- The collector after a remark, and the steps that tell of it. -/
def emit (c : Collector) (d : Diagnostic) : Collector × List Step :=
  if d.severity.isError then
    ({ c with diagnostics := c.diagnostics ++ [d], hasErrors := true }, [])
  else if !c.keepsWarnings then (c, [.discarded d])
  else ({ c with diagnostics := c.diagnostics ++ [d] }, [])

/-- The warnings that were kept, or all remarks with the errors first if there
    is an error among them. -/
def finish (c : Collector) : Except ParseError (List Diagnostic) :=
  if c.hasErrors then
    .error ⟨c.diagnostics.mergeSort fun a b => a.severity.isError || !b.severity.isError⟩
  else .ok c.diagnostics

end Collector

end Flowchart
