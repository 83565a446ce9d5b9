import Flowchart.Diagram.Pass

/-!
# Diagrams

Reading a flowchart text. Only a blank text is refused; every other one has a
graph, and lines that say nothing understandable are passed over. A strict
reading reports what it passed over as warnings, and a lenient one drops the
same remarks as they come. No step of a reading can break off, so there is no
crash for it to turn into an error of its own.

## Main definitions

* `Diagram.read?`: The graph, the direction and the warnings of a text, and what
  was told while it was read.
* `Diagram.parse`: The first of these.
* `Trace.ofSource?`: The second, step by step.
-/

namespace Flowchart

/-- A flowchart read from a text. -/
structure Diagram where
  graph : Graph
  direction : Option Direction
  warnings : List Diagnostic
deriving DecidableEq

/-- The diagram of a text, unless it is blank, and the steps of its reading. -/
def Diagram.read? (strict : Bool) (source : String) : Except ParseError (Diagram × List Step) :=
  if source.toList.all Text.isBlank then .error ⟨[.emptyInput]⟩
  else do
    let (direction, body) := Source.stripHeader (Source.lines source)
    let p := body.foldl Pass.readLine (.start strict body)
    let warnings ← p.collector.finish
    let d : Diagram := ⟨p.draft.graph, direction, warnings⟩
    return (d, p.log ++ [.parsed d.graph.nodes.length d.graph.edges.length d.warnings.length])

/-- The diagram of a text. The warnings are empty unless the reading is
    strict. -/
def Diagram.parse (strict : Bool) (source : String) : Except ParseError Diagram :=
  (read? strict source).map Prod.fst

/-- The steps in the reading of a text. -/
def Trace.ofSource? (strict : Bool) (source : String) : Except ParseError (List Step) :=
  (Diagram.read? strict source).map Prod.snd

end Flowchart
