import Flowchart.Engine.Basic

/-!
# Numbering

A layering works on arcs between numbers that leave none out. The boxes that
take part are the free ones with a link to another free box, and they are
numbered in the order in which the links first mention them. Links that are
repeated count once, and links from a box to itself or to a fixed box not at
all.

## Main definitions

* `Ends`: The boxes at both ends of a link.
* `Request.ends?`: The ends of every link.
* `Numbering.ofLinks`: The boxes that take part, and the arcs between them.
-/

namespace Flowchart

namespace Engine

/-- The places, in the list of boxes, of the two ends of a link. -/
abbrev Ends := Nat × Nat

namespace Request

/-- The place of the last box with an id. -/
def place? (r : Request) (id : String) : Option Nat :=
  (r.items.zipIdx.reverse.find? fun (item, _) => item.id == id).map Prod.snd

/-- The end of a link, or the failure that its box is not there. -/
def end? (r : Request) (link : Link) (id : String) : Except Failure Nat :=
  match r.place? id with
  | some i => .ok i
  | none => .error (.unknownNode link.id id)

/-- The ends of every link, or the first that is not there. -/
def ends? (r : Request) : Except Failure (List Ends) :=
  r.links.mapM fun link => do
    let source ← r.end? link link.source
    let target ← r.end? link link.target
    return (source, target)

/-- Whether the box at a place is fixed. -/
def isFixed (r : Request) (i : Nat) : Bool :=
  match r.items[i]? with
  | some item => item.fixed.isSome
  | none => false

end Request

/-- The boxes that take part in a layering, in the order of their numbers, and
    the arcs between the numbers. -/
structure Numbering where
  members : List Nat
  arcs : List (Nat × Nat)
deriving DecidableEq, Repr

namespace Numbering

/-- Whether a link leads from a free box to another. -/
def counts (isFixed : Nat → Bool) (link : Ends) : Bool :=
  link.1 != link.2 && !isFixed link.1 && !isFixed link.2

/-- The links that take part, each once. -/
def layered (isFixed : Nat → Bool) (links : List Ends) : List Ends :=
  (links.filter (counts isFixed)).eraseDups

/-- The boxes that take part and the arcs between them. -/
def ofLinks (isFixed : Nat → Bool) (links : List Ends) : Numbering :=
  let links := layered isFixed links
  let members := (links.flatMap fun (source, target) => [source, target]).eraseDups
  ⟨members, links.map fun (source, target) => (members.idxOf source, members.idxOf target)⟩

end Numbering

end Engine

end Flowchart
