import Flowchart.Build
import Flowchart.Command.Arguments
import Flowchart.Disk.Tree
import Flowchart.Graph.Json
import Flowchart.Json.Printer
import Flowchart.Json.Reader

/-!
# Running the Command

The command reads a flowchart text, lays it out and writes the drawing as JSON.
A drawing that was written before may be named, whose pins are then carried
over. What is read and what is to be written are data here: a disk to look at,
and a delivery that says what goes where.

A configuration is searched for in order: the path that was named, the folder
of settings beside the text, the folder of settings of the platform. Where none
is found the defaults hold.

## Main definitions

* `Command.Place`: The folders that a run looks at.
* `Command.config`: The configuration of a run.
* `Command.deliver`: What a run writes, or the error that ends it.
* `Command.run`: A run within a folder of files.
-/

namespace Flowchart

namespace Command

/-- The folders that a run looks at. -/
structure Place where
  /-- The folder in which the command runs. -/
  working : Disk
  /-- The platform's folder for settings. -/
  settings : Disk

/-- Where a configuration is, within a folder. -/
def configPath : String := "flowsketch/config.toml"

/-- Why a configuration cannot be used. -/
inductive ConfigFault where
  | missing (path : String)
  | notToml
  | flawed (flaw : Config.Flaw)
deriving DecidableEq

/-- The wording of a fault. -/
def ConfigFault.message : ConfigFault → String
  | missing path => "Missing configuration file: " ++ path
  | notToml => "Failed to parse TOML configuration"
  | flawed flaw => "Validation error: " ++ flaw.message

/-- The text of a file. -/
def readText (disk : Disk) (path : String) : Except RunError String :=
  (disk.readText path).mapError fun fault => .io fault.message

/-- The configuration that a text describes, if it can be used. -/
def checkConfig (text : String) : Except ConfigFault Config :=
  match Config.parse? text with
  | none => .error .notToml
  | some c =>
      match c.flaw? with
      | some flaw => .error (.flawed flaw)
      | none => .ok c

/-- The configuration in a file. -/
def loadConfig (disk : Disk) (path : String) : Except RunError Config := do
  if disk.contains path then
    (checkConfig (← readText disk path)).mapError fun fault => .config fault.message
  else .error (.config (ConfigFault.missing path).message)

/-- The configuration of a run, its strictness apart. -/
def findConfig (place : Place) : Option String → Except RunError Config
  | some path => loadConfig place.working path
  | none =>
      if place.working.contains configPath then loadConfig place.working configPath
      else if place.settings.contains configPath then loadConfig place.settings configPath
      else .ok {}

/-- The configuration of a run. The command line can only make it stricter. -/
def config (place : Place) (args : Arguments) : Except RunError Config := do
  let c ← findConfig place args.config
  return { c with strict := args.strict || c.strict }

/-- The graph of a stored drawing. -/
def loadPins (disk : Disk) (path : String) : Except RunError Graph := do
  match (Json.parse? (← readText disk path)).bind Drawing.ofJson? with
  | some drawing => return drawing.graph
  | none => .error (.serialize path)

/-- The graph with the pins of a stored drawing, if one is named. -/
def withPins (disk : Disk) (g : Graph) : Option String → Except RunError Graph
  | some path => do return g.pinsFrom (← loadPins disk path)
  | none => .ok g

/-- What a run writes, and the remarks it makes. -/
structure Delivery where
  path : String
  text : String
  warnings : List Diagnostic
deriving DecidableEq

/-- What a run writes, or the error that ends it. -/
def deliver (engine : Engine) (place : Place) (args : Arguments) : Except RunError Delivery := do
  let c ← config place args
  let diagram ← c.read (← readText place.working args.input)
  let g ← withPins place.working diagram.graph args.pins
  return ⟨args.output, (c.draw engine g).toJson.pretty, diagram.warnings⟩

/-- A run within a folder of files, which holds the drawing afterwards. -/
def run (engine : Engine) (working : Disk.Tree) (settings : Disk) (args : Arguments) :
    Except RunError (Disk.Tree × Delivery) := do
  let delivery ← deliver engine ⟨working.look, settings⟩ args
  match working.write delivery.path delivery.text.toUTF8 with
  | .ok tree => return (tree, delivery)
  | .error fault => .error (.io fault.message)

end Command

end Flowchart
