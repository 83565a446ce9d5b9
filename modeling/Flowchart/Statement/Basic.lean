import Flowchart.Graph.Basic

/-!
# Statements

A significant line is a statement about the flowchart: it declares a node,
connects two nodes, or restyles one. A bracket after an id gives the node its
shape and label.

## Main definitions

* `Bracket`, `Endpoint`, `Connection`, `Property`: The parts of statements.
* `Statement`: What a line says.
-/

namespace Flowchart

/-- A shape and a label, written as brackets around a text. -/
structure Bracket where
  shape : Shape
  label : String
deriving DecidableEq, Repr

/-- A node where an edge starts or ends. -/
structure Endpoint where
  id : String
  bracket : Option Bracket
deriving DecidableEq, Repr

/-- An edge as it is written. -/
structure Connection where
  source : Endpoint
  target : Endpoint
  line : Line
  label : Option String
deriving DecidableEq, Repr

/-- A property of a style as it is written, with a value yet to be checked. -/
structure Property where
  key : String
  value : String
deriving DecidableEq, Repr

/-- What a line says. -/
inductive Statement where
  /-- A node with its bracket. -/
  | declare (id : String) (bracket : Bracket)
  /-- An edge with its ends. -/
  | connect (connection : Connection)
  /-- Properties for the style of a node. -/
  | restyle (id : String) (properties : List Property)
deriving DecidableEq, Repr

end Flowchart
