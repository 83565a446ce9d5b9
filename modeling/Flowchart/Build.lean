import Flowchart.Config
import Flowchart.Diagram.Basic
import Flowchart.Layout.Basic
import Flowchart.RunError

/-!
# Building

Reading a text and laying out its graph as a configuration says. Between the
two steps a caller may change the graph, for instance by carrying pins over.

## Main definitions

* `Config.read`: The diagram of a text.
* `Config.draw`: The drawing of a graph.
* `Config.build`: Both in one go.
-/

namespace Flowchart

namespace Config

/-- The diagram of a text, read as strictly as the configuration says. -/
def read (c : Config) (source : String) : Except RunError Diagram :=
  match Diagram.parse c.strict source with
  | .ok diagram => .ok diagram
  | .error e => .error (.parse e source)

/-- The drawing of a graph, with the distances and the grid of the
    configuration. -/
def draw (c : Config) (engine : Engine) (g : Graph) : Drawing := g.layout engine c.options c.grid

/-- The drawing of the diagram of a text. -/
def build (c : Config) (engine : Engine) (source : String) : Except RunError Drawing := do
  return c.draw engine (← c.read source).graph

end Config

end Flowchart
