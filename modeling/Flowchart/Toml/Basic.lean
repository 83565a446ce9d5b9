import Flowchart.Single

/-!
# TOML Values

A TOML document is a table. How a table came about decides what may still be
added to it: a table that a header only passed through can have a header of its
own later, unless a dotted key took it over; one that a dotted key made or took
over can be extended by dotted keys, one with a header by neither, and one that
was written inline by nothing at all. An array of tables grows with each of its
headers, and a path through it leads to its last table.

A number beyond every range is a value like any other as long as nobody reads
it.

## Main definitions

* `Toml`: A value.
* `Toml.isReadable`: Whether every number in a value is within its range.
* `Toml.Members.addDotted?`: A table with one more key and value.
* `Toml.Members.openTable?`, `Toml.Members.openArray?`: A document after a
  header.
-/

namespace Flowchart

namespace Toml

/-- How a table came about. -/
inductive Kind where
  /-- A header passed through it. -/
  | passed
  /-- A dotted key made it, or took it over from a header. -/
  | dotted
  /-- It has a header. -/
  | headed
  /-- It was written inline. -/
  | inlined
deriving DecidableEq, Repr

end Toml

/-- A value. The content of a date or a time is not kept. -/
inductive Toml where
  | string (text : String)
  | integer (value : Int)
  | float (value : Float)
  /-- A number that is too large to be read. -/
  | overflow
  | bool (value : Bool)
  | moment
  | array (ofTables : Bool) (items : List Toml)
  | table (kind : Toml.Kind) (members : List (String × Toml))

namespace Toml

/-- The keys and values of a table. -/
abbrev Members := List (String × Toml)

mutual

/-- Whether every number in a value is within its range. -/
def isReadable : Toml → Bool
  | .overflow => false
  | .array _ items => areReadable items
  | .table _ ms => membersReadable ms
  | _ => true

/-- Whether every number in the items is within its range. -/
def areReadable : List Toml → Bool
  | [] => true
  | item :: items => item.isReadable && areReadable items

/-- Whether every number in the members is within its range. -/
def membersReadable : List (String × Toml) → Bool
  | [] => true
  | m :: ms => memberReadable m && membersReadable ms

/-- Whether every number in a member is within its range. -/
def memberReadable : String × Toml → Bool
  | (_, value) => value.isReadable

end

namespace Members

/-- The value of a key. -/
def get? (ms : Members) (key : String) : Option Toml :=
  (ms.find? fun (k, _) => k == key).map Prod.snd

/-- The members with another value for a key that is there. -/
def replace (ms : Members) (key : String) (value : Toml) : Members :=
  ms.map fun (k, v) => if k = key then (k, value) else (k, v)

/-- The members with one more key, if it is not there yet. -/
def insert? (ms : Members) (key : String) (value : Toml) : Option Members :=
  if (ms.get? key).isSome then none else some (ms ++ [(key, value)])

/-- The tables with a change to the last of them. -/
def changeLast? (change : Members → Option Members) : List Toml → Option (List Toml)
  | [] => none
  | [.table kind ms] => do return [.table kind (← change ms)]
  | [_] => none
  | item :: items => do return item :: (← changeLast? change items)

/-- The members with a key that a path leads to. The tables on the way are made
    by the dotted key, were made by another one, or are taken over from a header
    that passed through them. An array of tables may only be passed through. -/
def addDotted? (key : String) (value : Toml) : List String → Members → Option Members
  | [], ms => ms.insert? key value
  | step :: path, ms =>
      match ms.get? step with
      | none => do
          let inner ← addDotted? key value path []
          return ms ++ [(step, .table .dotted inner)]
      | some (.table .dotted inner) | some (.table .passed inner) => do
          return ms.replace step (.table .dotted (← addDotted? key value path inner))
      | some (.array true items) =>
          if path.isEmpty then none
          else do
            return ms.replace step
              (.array true (← changeLast? (addDotted? key value path) items))
      | some _ => none

/-- The members after a change to the table that a path of a header leads to.
    Tables that are not there yet are passed through. -/
def along? (change : Members → Option Members) : List String → Members → Option Members
  | [], ms => change ms
  | step :: path, ms =>
      match ms.get? step with
      | none => do
          let inner ← along? change path []
          return ms ++ [(step, .table .passed inner)]
      | some (.table .inlined _) => none
      | some (.table kind inner) => do
          return ms.replace step (.table kind (← along? change path inner))
      | some (.array true items) => do
          return ms.replace step (.array true (← changeLast? (along? change path) items))
      | some _ => none

/-- The members after the header of a table, which may not have one yet. -/
def openTable? (path : List String) (key : String) : Members → Option Members :=
  along? (fun ms =>
    match ms.get? key with
    | none => some (ms ++ [(key, .table .headed [])])
    | some (.table .passed inner) => some (ms.replace key (.table .headed inner))
    | some _ => none) path

/-- The members after the header of one more table in an array. -/
def openArray? (path : List String) (key : String) : Members → Option Members :=
  along? (fun ms =>
    match ms.get? key with
    | none => some (ms ++ [(key, .array true [.table .headed []])])
    | some (.array true items) =>
        some (ms.replace key (.array true (items ++ [.table .headed []])))
    | some _ => none) path

end Members

end Toml

end Flowchart
