import Flowchart.Source.Header
import Flowchart.Statement.Basic

/-!
# Forms of Statements

A line is offered to eight forms in turn, and the first that accepts it whole
decides what it says. Edges share one grammar,

    edge     := endpoint gap arrow gap (pipe gap)? endpoint (gap pipe)?
    endpoint := id bracket?
    bracket  := '[[' text ']]' | '[' text ']' | '((' text '))' | '{' text '}'
    pipe     := '|' text '|'

and the forms of edges differ in the arrow they take and in the ends they ask
for. A label next to the arrow is preferred to one after the target, and a
blank label is none. The form for a bare source and a bracketed target has a
grammar of its own, in which the first label must stand and the second cannot,

    labelled := endpoint gap arrow gap pipe gap endpoint

## Main definitions

* `Form`: The eight forms, in the order in which they are tried.
* `Form.read?`: The statement that a form reads from a whole line.
* `Statement.ofLine?`: The first form that reads a line, and its statement.
-/

namespace Flowchart

/-- A character that an id may hold. -/
def isIdChar (c : Char) : Bool := c.isAlphanum || c == '_'

namespace Statement

open Source (skipGap isGap)

/-! ## Tokens -/

/-- The text before the first `stop`, and the text after it. -/
def until? (stop : List Char) : List Char → Option (List Char × List Char)
  | [] => if stop.isEmpty then some ([], []) else none
  | c :: cs =>
      if stop.isPrefixOf (c :: cs) then some ([], (c :: cs).drop stop.length)
      else (until? stop cs).map fun (text, rest) => (c :: text, rest)

/-- The text after a token at the head. -/
def token? (token cs : List Char) : Option (List Char) :=
  if token.isPrefixOf cs then some (cs.drop token.length) else none

/-- The id at the head of a text. -/
def id? (cs : List Char) : Option (String × List Char) :=
  let id := cs.takeWhile isIdChar
  if id.isEmpty then none else some (String.ofList id, cs.dropWhile isIdChar)

/-- The brackets, in the order in which they are tried: the text before and
    after the label, and the shape. -/
def brackets : List (List Char × List Char × Shape) := [
  (['[', '['], [']', ']'], .rectangle),
  (['['], [']'], .rectangle),
  (['(', '('], [')', ')'], .circle),
  (['\x7b'], ['\x7d'], .diamond)]

/-- The bracket at the head of a text. -/
def bracket? (cs : List Char) : Option (Bracket × List Char) :=
  brackets.findSome? fun (opening, closing, shape) => do
    let rest ← token? opening cs
    let (label, rest) ← until? closing rest
    return (⟨shape, String.ofList (Text.trim label)⟩, rest)

/-- The end of an edge at the head of a text. -/
def endpoint? (cs : List Char) : Option (Endpoint × List Char) := do
  let (id, rest) ← id? cs
  match bracket? rest with
  | some (bracket, rest) => return (⟨id, some bracket⟩, rest)
  | none => return (⟨id, none⟩, rest)

/-- The label between two pipes at the head of a text. -/
def pipe? (cs : List Char) : Option (List Char × List Char) := do
  let rest ← token? ['|'] cs
  until? ['|'] rest

/-! ## Edges -/

/-- An edge before its label is chosen: the text next to the arrow and the
    text after the target. -/
structure EdgeText where
  source : Endpoint
  target : Endpoint
  early : Option (List Char)
  late : Option (List Char)
deriving DecidableEq, Repr

/-- The label of an edge: the early text if there is one, or else the late
    one, and none if the text is blank. -/
def EdgeText.label (e : EdgeText) : Option String :=
  match (e.early.or e.late).map Text.trim with
  | some (c :: cs) => some (String.ofList (c :: cs))
  | _ => none

/-- The edge with a given arrow at the head of a text. -/
def edge? (arrow cs : List Char) : Option (EdgeText × List Char) := do
  let (source, rest) ← endpoint? cs
  let rest ← token? arrow (skipGap rest)
  let rest := skipGap rest
  let (early, rest) := match pipe? rest with
    | some (text, rest) => (some text, skipGap rest)
    | none => (none, rest)
  let (target, rest) ← endpoint? rest
  let (late, rest) := match pipe? (skipGap rest) with
    | some (text, rest) => (some text, rest)
    | none => (none, rest)
  return (⟨source, target, early, late⟩, rest)

/-- The edge with a label next to its arrow at the head of a text. A label
    after the target is not read. -/
def labelledEdge? (arrow cs : List Char) : Option (EdgeText × List Char) := do
  let (source, rest) ← endpoint? cs
  let rest ← token? arrow (skipGap rest)
  let (early, rest) ← pipe? (skipGap rest)
  let (target, rest) ← endpoint? (skipGap rest)
  return (⟨source, target, some early, none⟩, rest)

/-- What a reader found, if only blanks are left. -/
def whole {α : Type} : Option (α × List Char) → Option α
  | some (a, rest) => if rest.all Text.isBlank then some a else none
  | none => none

/-! ## Styles -/

/-- The text cut at each comma. -/
def atCommas : List Char → List (List Char)
  | [] => [[]]
  | c :: cs =>
      if c = ',' then [] :: atCommas cs
      else match atCommas cs with
        | [] => [[c]]
        | part :: parts => (c :: part) :: parts

/-- The property that a trimmed text spells: a key, a colon and a value. A
    text without a colon is a key with an empty value. -/
def property (raw : List Char) : Property :=
  match until? [':'] raw with
  | some (key, value) => ⟨String.ofList (Text.trim key), String.ofList (Text.trim value)⟩
  | none => ⟨String.ofList raw, ""⟩

/-- The properties of a style, one between each two commas. Blank ones are
    left out. -/
def properties (body : List Char) : List Property :=
  ((atCommas body).map Text.trim).filter (fun raw => !raw.isEmpty) |>.map property

/-- The keyword of a style. -/
def styleWord : List Char := "style".toList

/-- One or more blanks at the head of a text. -/
def gap? (cs : List Char) : Option (List Char) :=
  let rest := skipGap cs
  if rest.length < cs.length then some rest else none

/-- A style, which takes up the rest of the text. -/
def style? (cs : List Char) : Option Statement := do
  let rest ← gap? (← token? styleWord cs)
  let (id, rest) ← id? rest
  let body ← gap? rest
  if body.isEmpty then none else return .restyle id (properties body)

end Statement

/-! ## Forms -/

/-- The forms of a statement, in the order in which they are tried. -/
inductive Form where
  | nodeDeclaration
  | bracketedEdge
  | labelledTargetEdge
  | plainEdge
  | mixedEdge
  | dashedEdge
  | dottedLink
  | styleDirective
deriving DecidableEq, Repr

namespace Form

/-- Every form, in the order in which they are tried. -/
def all : List Form := [nodeDeclaration, bracketedEdge, labelledTargetEdge, plainEdge,
  mixedEdge, dashedEdge, dottedLink, styleDirective]

/-- The name of a form in a trace. -/
def name : Form → String
  | nodeDeclaration => "node_declaration"
  | bracketedEdge => "bracketed_edge"
  | labelledTargetEdge => "labelled_target_edge"
  | plainEdge => "plain_edge"
  | mixedEdge => "mixed_edge"
  | dashedEdge => "dashed_edge"
  | dottedLink => "dotted_link"
  | styleDirective => "style_directive"

/-- Whether a form of edges takes an edge with these ends. -/
def takes (form : Form) (e : Statement.EdgeText) : Bool :=
  match form with
  | bracketedEdge => e.source.bracket.isSome && e.target.bracket.isSome
  | labelledTargetEdge => e.source.bracket.isNone && e.target.bracket.isSome
  | plainEdge => e.source.bracket.isNone && e.target.bracket.isNone
  | _ => true

/-- The edge that a form takes from a whole line, as its grammar found it. -/
def edge? (form : Form) (line : Line) (found : Option (Statement.EdgeText × List Char)) :
    Option Statement := do
  let e ← Statement.whole found
  if form.takes e then return .connect ⟨e.source, e.target, line, e.label⟩ else none

/-- The node that a whole line declares. -/
def declaration? (cs : List Char) : Option Statement := do
  let (id, bracket) ← Statement.whole do
    let (id, rest) ← Statement.id? cs
    let (bracket, rest) ← Statement.bracket? rest
    return ((id, bracket), rest)
  return .declare id bracket

/-- The arrow of a solid edge. -/
def solidArrow : List Char := ['-', '-', '>']

/-- The arrow of a dashed edge. -/
def dashedArrow : List Char := ['-', '.', '-', '>']

/-- The line of a dotted edge, which has no arrowhead. -/
def dottedLine : List Char := ['-', '.', '-']

/-- The statement that a form reads from a whole line. -/
def read? (form : Form) (cs : List Char) : Option Statement :=
  match form with
  | nodeDeclaration => declaration? cs
  | bracketedEdge | plainEdge | mixedEdge => form.edge? .arrow (Statement.edge? solidArrow cs)
  | labelledTargetEdge => form.edge? .arrow (Statement.labelledEdge? solidArrow cs)
  | dashedEdge => form.edge? .dashed (Statement.edge? dashedArrow cs)
  | dottedLink => form.edge? .dotted (Statement.edge? dottedLine cs)
  | styleDirective => Statement.style? cs

end Form

/-- The first form that reads a line, and the statement it reads. -/
def Statement.ofLine? (cs : List Char) : Option (Form × Statement) :=
  Form.all.findSome? fun form => (form.read? cs).map fun s => (form, s)

end Flowchart
