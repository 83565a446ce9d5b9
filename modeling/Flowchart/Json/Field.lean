import Flowchart.Json.Basic

/-!
# Reading Records

A record is written as an object with named members or as an array of its
fields in a fixed order. Members with other names are passed over, a field may
not be given twice, and an array may leave out fields at its end but may not
hold more. Whether a field may be missing is for the field to say.

## Main definitions

* `Json.fields?`: The values given for the fields of a record.
* `Json.required`, `Json.optional`, `Json.withDefault`: The kinds of fields.
* `Json.variant?`: The name of one of several alternatives.
-/

namespace Flowchart

namespace Json

/-- The values of the members with a name. -/
def valuesOf (name : String) (members : List (Option String × Json)) : List Json :=
  (members.filter fun (key, _) => key == some name).map Prod.snd

/-- The value given for each of the named fields, if the value is a record. -/
def fields? (names : List String) : Json → Option (List (Option Json))
  | .array items =>
      if items.length ≤ names.length then
        some ((List.range names.length).map fun i => items[i]?)
      else none
  | .object members =>
      if members.any (fun (key, _) => key.isNone) then none
      else names.mapM fun name =>
        match valuesOf name members with
        | [] => some none
        | [value] => some (some value)
        | _ => none
  | _ => none

/-- A field that must be given. -/
def required {α : Type} (read : Json → Option α) : Option Json → Option α
  | some value => read value
  | none => none

/-- A field that may be left out, or given as `null`. -/
def optional {α : Type} (read : Json → Option α) : Option Json → Option (Option α)
  | none => some none
  | some .null => some none
  | some value => (read value).map some

/-- A field that may be left out, and then has a default. -/
def withDefault {α : Type} (default : α) (read : Json → Option α) : Option Json → Option α
  | none => some default
  | some value => read value

/-- The text that a value denotes. -/
def text? : Json → Option String
  | .string text => text
  | _ => none

/-- The truth value that a value denotes. -/
def bool? : Json → Option Bool
  | .bool b => some b
  | _ => none

/-- The single that a value denotes. -/
def single? : Json → Option Float32
  | .number n => n.toSingle?
  | _ => none

/-- The items of an array, each of them read. -/
def list? {α : Type} (read : Json → Option α) : Json → Option (List α)
  | .array items => items.mapM read
  | _ => none

/-- The name of an alternative, given as a string or as the only key of an
    object with nothing behind it. -/
def variant? : Json → Option String
  | .string text => text
  | .object [(key, .null)] => key
  | _ => none

end Json

end Flowchart
