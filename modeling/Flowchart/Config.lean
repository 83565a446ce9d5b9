import Flowchart.Decimal.Shortest
import Flowchart.Engine.Basic
import Flowchart.Layout.Grid
import Flowchart.Toml.Reader

/-!
# Configuration

How strictly a text is read, what an engine is told, and the grid to fall back
on. A configuration is written in TOML; what it leaves out has a default, and
keys it does not know are passed over, though their numbers must be within
their ranges. A section may also be an array of its values in a fixed order;
what comes after them is not looked at.

A configuration that is read for use is checked: distances are finite and not
negative, and a grid has a column.

## Main definitions

* `Config`: The settings.
* `Config.parse?`: The settings that a TOML text makes.
* `Config.Flaw`: Why settings cannot be used.
* `Config.flaw?`: The first flaw of settings.
-/

namespace Flowchart

/-- The settings of the program. -/
structure Config where
  strict : Bool := false
  options : Engine.Options := {}
  grid : Grid := {}
deriving DecidableEq

namespace Toml

/-- The value given for each field. The values of all other keys are read too,
    but not used. -/
def Members.fields? (names : List String) (ms : Members) : Option (List (Option Toml)) :=
  if ms.all fun (key, value) => names.contains key || value.isReadable then
    some (names.map fun name => ms.get? name)
  else none

/-- The value given for each field of a section. A date has none of them. -/
def fields? (names : List String) : Toml → Option (List (Option Toml))
  | .table _ ms => Members.fields? names ms
  | .array _ items => some ((List.range names.length).map fun i => items[i]?)
  | .moment => some (names.map fun _ => none)
  | _ => none

/-- The single that a value denotes. Of integers, only those of 64 bits do. -/
def single? : Toml → Option Float32
  | .integer n => if -Int.pow 2 63 ≤ n ∧ n < Int.pow 2 64 then some (Single.ofInteger n) else none
  | .float x => some (Single.ofDouble x)
  | _ => none

/-- The truth value that a value denotes. -/
def bool? : Toml → Option Bool
  | .bool b => some b
  | _ => none

/-- The natural number of so many bits that a value denotes. -/
def natural? (bits : Nat) : Toml → Option Nat
  | .integer n => if 0 ≤ n ∧ n < Int.pow 2 bits then some n.toNat else none
  | _ => none

/-- A field that has a default. -/
def setting {α : Type} (default : α) (read : Toml → Option α) : Option Toml → Option α
  | none => some default
  | some value => read value

end Toml

namespace Config

/-- The grid that a section describes. -/
def grid? (part : Toml) : Option Grid := do
  let usual : Grid := {}
  match ← part.fields?
    ["columns", "column_spacing", "row_spacing", "margin", "node_width", "node_height"] with
  | [columns, columnSpacing, rowSpacing, margin, width, height] =>
      return ⟨← Toml.setting usual.columns (Toml.natural? 64) columns,
        ← Toml.setting usual.columnSpacing Toml.single? columnSpacing,
        ← Toml.setting usual.rowSpacing Toml.single? rowSpacing,
        ← Toml.setting usual.margin Toml.single? margin,
        ⟨← Toml.setting usual.nodeSize.width Toml.single? width,
          ← Toml.setting usual.nodeSize.height Toml.single? height⟩⟩
  | _ => none

/-- What an engine is told and the grid, as a section describes them. -/
def layout? (part : Toml) : Option (Engine.Options × Grid) := do
  let usual : Engine.Options := {}
  match ← part.fields? ["node_spacing", "layer_spacing", "padding", "thoroughness",
    "simplify_bend_points", "fallback"] with
  | [nodeSpacing, layerSpacing, padding, thoroughness, simplify, fallback] =>
      let options : Engine.Options :=
        ⟨← Toml.setting usual.nodeSpacing Toml.single? nodeSpacing,
          ← Toml.setting usual.layerSpacing Toml.single? layerSpacing,
          ← Toml.setting usual.padding Toml.single? padding,
          ← Toml.setting usual.thoroughness (Toml.natural? 32) thoroughness,
          ← Toml.setting usual.simplifyBends Toml.bool? simplify⟩
      return (options, ← Toml.setting {} grid? fallback)
  | _ => none

/-- How strictly a text is read, as a section describes it. -/
def strict? (part : Toml) : Option Bool := do
  match ← part.fields? ["strict"] with
  | [strict] => Toml.setting false Toml.bool? strict
  | _ => none

/-- The settings that the members of a document make. -/
def ofMembers? (ms : Toml.Members) : Option Config := do
  match ← ms.fields? ["parser", "layout"] with
  | [parser, layout] =>
      let strict ← Toml.setting false strict? parser
      let (options, grid) ← Toml.setting ({}, {}) layout? layout
      return ⟨strict, options, grid⟩
  | _ => none

/-- The settings that a TOML text makes. -/
def parse? (text : String) : Option Config := do ofMembers? (← Toml.parse? text)

/-- Why settings cannot be used. -/
inductive Flaw where
  /-- A distance is negative or not finite. -/
  | badDistance (key : String) (value : Float32)
  /-- The grid has no column. -/
  | noColumn
deriving DecidableEq

/-- The wording of a flaw. -/
def Flaw.message : Flaw → String
  | badDistance key value =>
      "`" ++ key ++ "` must be a non-negative number, got " ++ Single.plainText value
  | noColumn => "`layout.fallback.columns` must be at least 1"

/-- Every distance among the settings, with its key. -/
def distances (c : Config) : List (String × Float32) := [
  ("layout.node_spacing", c.options.nodeSpacing),
  ("layout.layer_spacing", c.options.layerSpacing),
  ("layout.padding", c.options.padding),
  ("layout.fallback.column_spacing", c.grid.columnSpacing),
  ("layout.fallback.row_spacing", c.grid.rowSpacing),
  ("layout.fallback.margin", c.grid.margin),
  ("layout.fallback.node_width", c.grid.nodeSize.width),
  ("layout.fallback.node_height", c.grid.nodeSize.height)]

/-- Whether a distance can be used. -/
def isDistance (x : Float32) : Bool := x.isFinite && !(x < 0)

/-- The first flaw of settings: a bad distance, or else a missing column. -/
def flaw? (c : Config) : Option Flaw :=
  match c.distances.find? fun (_, x) => !isDistance x with
  | some (key, x) => some (.badDistance key x)
  | none => if c.grid.columns = 0 then some .noColumn else none

end Config

end Flowchart
