/-!
# Files

What a program finds behind the name of a file: the bytes of a file, a folder,
or the reason why it finds nothing. A program that only reads needs no more of
a disk than this.

## Main definitions

* `Disk.Entry`, `Disk.Fault`: What is found, or why nothing is.
* `Disk`: What is found behind each path.
* `Disk.readText`: The text of a file.
-/

namespace Flowchart

namespace Disk

/-- Why a file cannot be used. -/
inductive Fault where
  | missing
  | notFolder
  | isFolder
  /-- A path, or a name in it, is too long. -/
  | tooLong
  /-- A path with a character that no path may have. -/
  | badPath
  /-- The bytes of a file are no text. -/
  | notText
  /-- Any other reason that a system gives. -/
  | other (text : String)
deriving DecidableEq, Repr

/-- The wording of a fault. -/
def Fault.message : Fault → String
  | missing => "No such file or directory (os error 2)"
  | notFolder => "Not a directory (os error 20)"
  | isFolder => "Is a directory (os error 21)"
  | tooLong => "File name too long (os error 36)"
  | badPath => "file name contained an unexpected NUL byte"
  | notText => "stream did not contain valid UTF-8"
  | other text => text

/-- A file or a folder. -/
inductive Entry where
  | file (bytes : ByteArray)
  | folder

end Disk

/-- What is found behind each path. -/
abbrev Disk := String → Except Disk.Fault Disk.Entry

namespace Disk

/-- Whether anything is found behind a path. -/
def contains (disk : Disk) (path : String) : Bool := (disk path).isOk

/-- The text of a file. -/
def readText (disk : Disk) (path : String) : Except Fault String := do
  match ← disk path with
  | .folder => .error .isFolder
  | .file bytes =>
      match String.fromUTF8? bytes with
      | some text => return text
      | none => .error .notText

end Disk

end Flowchart
