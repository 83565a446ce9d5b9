/-!
# Command Line Arguments

The words behind the name of the program. One word is the path of the flowchart
text, and the rest are options, which may stand before or behind it. An option
with a value takes it from the next word, or from its own word behind `=` or,
if it has a one-letter form, right behind the letter. A word `--` ends the
options.

An option waits for its value until the next option or the path comes, and only
then it is settled: it must have a value, and it must not have been given
before. So of two mistakes the one that is settled first is reported.

## Main definitions

* `Arguments`: What the words ask for.
* `Arguments.Stop`: Why words ask for nothing that can be run.
* `Arguments.ofWords`: The arguments of words.
-/

namespace Flowchart

/-- What a command line asks for. -/
structure Arguments where
  input : String
  output : String
  config : Option String
  logLevel : String
  strict : Bool
  pins : Option String
deriving DecidableEq, Repr

namespace Arguments

/-- Why words ask for nothing that can be run. -/
inductive Stop where
  /-- The path of the flowchart text is missing. -/
  | missingInput
  /-- An option or a further path that is not known. -/
  | unknownWord
  /-- An option that was given before. -/
  | repeated
  /-- An option without its value. -/
  | missingValue
  /-- A value for an option that has none. -/
  | needlessValue
  /-- The user asks how to use the program. -/
  | help
  /-- The user asks for the version of the program. -/
  | version
deriving DecidableEq, Repr

/-- The options with a value. -/
inductive Setting where
  | output
  | config
  | logLevel
  | pins
deriving DecidableEq, Repr

/-- The options without a value. -/
inductive Switch where
  | strict
  | help
  | version
deriving DecidableEq, Repr

/-- The option with a long name. -/
def long? : String → Option (Setting ⊕ Switch)
  | "output" => some (.inl .output)
  | "config" => some (.inl .config)
  | "log-level" => some (.inl .logLevel)
  | "pins" => some (.inl .pins)
  | "strict" => some (.inr .strict)
  | "help" => some (.inr .help)
  | "version" => some (.inr .version)
  | _ => none

/-- The option with a one-letter name. -/
def short? : Char → Option (Setting ⊕ Switch)
  | 'o' => some (.inl .output)
  | 'c' => some (.inl .config)
  | 'h' => some (.inr .help)
  | 'V' => some (.inr .version)
  | _ => none

/-- What the words so far ask for. -/
structure Draft where
  input : Option String := none
  values : List (Setting × String) := []
  strict : Bool := false
  /-- The option that is not settled yet, with its value if it has one. -/
  waiting : Option (Setting × Option String) := none
  /-- Whether the options have ended. -/
  ended : Bool := false
deriving DecidableEq, Repr

namespace Draft

/-- The value of an option. -/
def value? (d : Draft) (setting : Setting) : Option String := d.values.lookup setting

/-- The draft with an option given. -/
def give (d : Draft) (setting : Setting) (value : String) : Except Stop Draft :=
  match d.value? setting with
  | some _ => .error .repeated
  | none => .ok { d with values := d.values ++ [(setting, value)] }

/-- The draft after the waiting option was settled. -/
def settle (d : Draft) : Except Stop Draft :=
  match d.waiting with
  | none => .ok d
  | some (_, none) => .error .missingValue
  | some (setting, some value) => { d with waiting := none }.give setting value

/-- The draft after an option, with its value if that was attached. -/
def set (d : Draft) (setting : Setting) (value : Option String) : Except Stop Draft := do
  let d ← d.settle
  match value with
  | some value => d.give setting value
  | none => return { d with waiting := some (setting, none) }

/-- The draft after a switch. -/
def flip (d : Draft) (switch : Switch) : Except Stop Draft := do
  let d ← d.settle
  match switch with
  | .strict => if d.strict then .error .repeated else return { d with strict := true }
  | .help => .error .help
  | .version => .error .version

/-- The draft after a path. -/
def path (d : Draft) (word : String) : Except Stop Draft :=
  match d.input with
  | some _ => .error .unknownWord
  | none => do return { ← d.settle with input := some word }

/-- The draft after a word that is no option: the value that is waited for, or a
    path. -/
def plain (d : Draft) (word : String) : Except Stop Draft :=
  match d.waiting with
  | some (setting, none) => .ok { d with waiting := some (setting, some word) }
  | _ => d.path word

/-- A word cut at its first `=`. -/
def cutAtEquals (cs : List Char) : List Char × Option (List Char) :=
  match cs.dropWhile (· != '=') with
  | _ :: value => (cs.takeWhile (· != '='), some value)
  | [] => (cs, none)

/-- The draft after a word that starts with two hyphens, which are left off
    here. -/
def longWord (d : Draft) (cs : List Char) : Except Stop Draft :=
  let (name, value) := cutAtEquals cs
  match long? (String.ofList name), value with
  | some (.inl setting), value => d.set setting (value.map String.ofList)
  | some (.inr switch), none => d.flip switch
  | some (.inr _), some _ => .error .needlessValue
  | none, _ => .error .unknownWord

/-- The value behind the letter of an option, if there is one. An equals sign
    before it is left off. -/
def attached : List Char → Option String
  | [] => none
  | '=' :: value => some (String.ofList value)
  | value => some (String.ofList value)

/-- The draft after the letters of a word that starts with one hyphen. -/
def letters (d : Draft) : List Char → Except Stop Draft
  | [] => .ok d
  | c :: cs =>
      match short? c with
      | some (.inl setting) => d.set setting (attached cs)
      | some (.inr switch) => do letters (← d.flip switch) cs
      | none => .error .unknownWord

/-- The draft after one more word. -/
def word (d : Draft) (w : String) : Except Stop Draft :=
  if d.ended then d.path w
  else match w.toList with
    | ['-', '-'] => .ok { d with ended := true }
    | '-' :: '-' :: cs => d.longWord cs
    | ['-'] => d.plain w
    | '-' :: cs => d.letters cs
    | _ => d.plain w

/-- The arguments of a finished draft. -/
def finish (d : Draft) : Except Stop Arguments := do
  let d ← d.settle
  match d.input with
  | none => .error .missingInput
  | some input =>
      return ⟨input, (d.value? .output).getD "out.json", d.value? .config,
        (d.value? .logLevel).getD "info", d.strict, d.value? .pins⟩

end Draft

/-- The arguments of words. -/
def ofWords (words : List String) : Except Stop Arguments := do
  (← words.foldlM Draft.word {}).finish

end Arguments

end Flowchart
