import Flowchart.Command.Run
import Flowchart.Engine.Layered
import Flowchart.Layering.Basic
import Flowchart.Report

/-!
# The Command Line Program

Looks at the files that the arguments name, runs the command on what was found,
writes the drawing and shows the remarks. Everything that is decided is decided
by the command itself.
-/

namespace Flowchart

namespace Main

/-- The number of an error of the system, which may come negated. -/
def systemCode (code : UInt32) : UInt32 := min code (0 - code)

/-- The fault behind an error of the system. -/
def fault (e : IO.Error) : Disk.Fault :=
  match e with
  | .noFileOrDirectory _ _ _ => .missing
  | .inappropriateType _ code _ =>
      if systemCode code = 20 then .notFolder
      else if systemCode code = 21 then .isFolder
      else .other (toString e)
  | .invalidArgument _ code _ =>
      if systemCode code = 36 then .tooLong else .other (toString e)
  | _ => .other (toString e)

/-- What is found behind a path. -/
def look (path : String) : IO (Except Disk.Fault Disk.Entry) := do
  try
    return .ok (.file (← IO.FS.readBinFile path))
  catch e =>
    match fault e with
    | .isFolder => return .ok .folder
    | f => return .error f

/-- What is found behind some paths below a folder. -/
def survey (folder : String) (paths : List String) : IO Disk := do
  let found ← paths.mapM fun path => do return (path, ← look (folder ++ path))
  return fun path => (found.lookup path).getD (.error .missing)

/-- The platform's folder for settings. -/
def settingsFolder : IO String := do
  match ← IO.getEnv "XDG_CONFIG_HOME" with
  | some folder => return folder ++ "/"
  | none => return (← IO.getEnv "HOME").getD "" ++ "/.config/"

/-- The line that shows a report. -/
def line (r : Report) : String :=
  (match r.severity? with
    | some severity => severity.text ++ ": "
    | none => "") ++
    r.text ++
    (match r.help? with
      | some help => "\n  help: " ++ help
      | none => "")

/-- Shows reports. -/
def showReports (rs : List Report) : IO Unit := rs.forM fun r => IO.eprintln (line r)

/-- Writes a delivery. -/
def write (delivery : Command.Delivery) : IO (Except RunError Unit) := do
  try
    IO.FS.writeFile delivery.path delivery.text
    return .ok ()
  catch e => return .error (.io (fault e).message)

/-- Runs the command and says whether there is a drawing. -/
def run (args : Arguments) : IO UInt32 := do
  let paths := Command.configPath :: args.input :: args.config.toList ++ args.pins.toList
  let working ← survey "" paths
  let settings ← survey (← settingsFolder) [Command.configPath]
  match Command.deliver (Engine.layered Layering.standard) ⟨working, settings⟩ args with
  | .error e =>
      showReports e.reports
      return 1
  | .ok delivery =>
      showReports (Diagnostic.reports delivery.warnings)
      match ← write delivery with
      | .ok _ => return 0
      | .error e =>
          showReports e.reports
          return 1

/-- How the program is used. -/
def usage : String :=
  "Usage: flowchart [OPTIONS] <INPUT>\n\n" ++
  "  -o, --output <OUTPUT>        where the drawing goes, out.json by default\n" ++
  "  -c, --config <CONFIG>        a configuration in TOML\n" ++
  "      --log-level <LOG_LEVEL>  how much is shown\n" ++
  "      --strict                 show what was passed over in the text\n" ++
  "      --pins <PINS>            an earlier drawing whose pins are kept"

/-- What is shown when there is nothing to run. -/
def stopText : Arguments.Stop → String
  | .help => usage
  | .version => "flowchart"
  | .missingInput => "error: the path of the input is missing\n\n" ++ usage
  | .unknownWord => "error: unexpected argument\n\n" ++ usage
  | .repeated => "error: an option is given more than once\n\n" ++ usage
  | .missingValue => "error: an option lacks its value\n\n" ++ usage
  | .needlessValue => "error: an option takes no value\n\n" ++ usage

end Main

end Flowchart

/-- The program. -/
def main (words : List String) : IO UInt32 := do
  match Flowchart.Arguments.ofWords words with
  | .ok args => Flowchart.Main.run args
  | .error stop =>
      let text := Flowchart.Main.stopText stop
      if stop = .help ∨ stop = .version then
        IO.println text
        return 0
      IO.eprintln text
      return 2
