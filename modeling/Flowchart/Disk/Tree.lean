import Flowchart.Disk.Basic

/-!
# Folders of Files

A working folder with the files below it. A folder is there if a file is below
it, so only files are listed. Paths are walked step by step: an empty step and
`.` stay, `..` goes up, and every step but the last must reach a folder. The
folders above the working folder are there too, with nothing else in them. A
path has a greatest length, and so has each name in it; a name is only measured
where it is looked up.

## Main definitions

* `Disk.Tree`: The files below the working folder.
* `Disk.Tree.look`: What a path leads to.
* `Disk.Tree.write`: The tree with a file put in place.
-/

namespace Flowchart

namespace Disk

/-- The files below the working folder, each with the steps that lead to it. A
    file elsewhere has steps that first go up, or to the root. -/
structure Tree where
  files : List (List String × ByteArray)

namespace Tree

/-- What steps lead to. -/
inductive Place where
  | file (bytes : ByteArray)
  /-- The folder that the steps lead to. -/
  | folder (steps : List String)

/-- The steps of a path. -/
def steps (path : String) : List String := path.splitOn "/"

/-- The file that a list of steps leads to. -/
def file? (t : Tree) (way : List String) : Option ByteArray := t.files.lookup way

/-- The root, as a step. -/
def root : String := "/"

/-- Whether a list of steps leads to a folder: the working folder, one above it,
    the root, or one on the way to a file. -/
def isFolder (t : Tree) (way : List String) : Bool :=
  way.all (· == "..") || way == [root] ||
    t.files.any fun (f, _) => way.length < f.length && way.isPrefixOf f

/-- The greatest number of bytes in a name. -/
def nameLimit : Nat := 255

/-- The greatest number of bytes in a path. -/
def pathLimit : Nat := 4095

/-- A name that is not too long to be looked up. -/
def checkName (name : String) : Except Fault Unit :=
  if nameLimit < name.utf8ByteSize then .error .tooLong else .ok ()

/-- A path that can be walked. -/
def checkPath (path : String) : Except Fault Unit :=
  if path.isEmpty then .error .missing
  else if path.contains '\x00' then .error .badPath
  else if pathLimit < path.utf8ByteSize then .error .tooLong
  else .ok ()

/-- The place of a name in a folder. -/
def child (t : Tree) (folder : List String) (name : String) : Except Fault Place := do
  checkName name
  let way := folder ++ [name]
  match t.file? way with
  | some bytes => .ok (.file bytes)
  | none => if t.isFolder way then .ok (.folder way) else .error .missing

/-- The steps to the folder around the one that steps lead to. Above the working
    folder they get longer, and the root has none around it. -/
def up (way : List String) : List String :=
  if way.all (· == "..") then way ++ [".."]
  else if way = [root] then way
  else way.dropLast

/-- The place that one step leads to. -/
def step (t : Tree) : Place → String → Except Fault Place
  | .file _, _ => .error .notFolder
  | .folder way, name =>
      if name ∈ ["", "."] then .ok (.folder way)
      else if name = ".." then .ok (.folder (up way))
      else t.child way name

/-- Where a path starts. -/
def start (path : String) : Place := .folder (if path.startsWith "/" then [root] else [])

/-- The place that a path leads to. -/
def place (t : Tree) (path : String) : Except Fault Place := do
  checkPath path
  (steps path).foldlM t.step (start path)

/-- What a path leads to. -/
def look (t : Tree) : Disk := fun path =>
  (t.place path).map fun
    | .file bytes => .file bytes
    | .folder _ => .folder

/-- The tree with the file at some steps put in place. -/
def put (t : Tree) (way : List String) (bytes : ByteArray) : Tree :=
  ⟨(way, bytes) :: t.files.filter fun (f, _) => f != way⟩

/-- The tree with a file put in a folder under a name. -/
def putIn (t : Tree) (bytes : ByteArray) (name : String) : Place → Except Fault Tree
  | .file _ => .error .notFolder
  | .folder folder => do
      if name ∈ ["", ".", ".."] then .error .isFolder
      checkName name
      if t.isFolder (folder ++ [name]) then .error .isFolder
      return t.put (folder ++ [name]) bytes

/-- The folder and the name that a path to be written ends in. The name is empty
    where the path ends in a slash. -/
def target (path : String) : List String × String :=
  let steps := steps path
  let named := steps.reverse.dropWhile (· == "") |>.reverse
  (named.dropLast, if named.length < steps.length then "" else named.getLastD "")

/-- The tree with a file put in place. Its folder must be there already. -/
def write (t : Tree) (path : String) (bytes : ByteArray) : Except Fault Tree := do
  checkPath path
  let (folder, name) := target path
  t.putIn bytes name (← folder.foldlM t.step (start path))

end Tree

end Disk

end Flowchart
