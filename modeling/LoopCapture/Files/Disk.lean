import LoopCapture.Files.Path

/-! # Disks

What a command needs to know of the files around it: what is at a path, which files are below a
directory, and what a file says.
-/

namespace LoopCapture.Files

inductive EntryKind where
  | file
  | directory
deriving DecidableEq, Repr

inductive ReadFault where
  | zeroCharacter
  | nameTooLong
  | missing
  | notDirectory
  | isDirectory
  | notText
deriving DecidableEq, Repr

def ReadFault.text : ReadFault → String
  | .zeroCharacter => "file name contained an unexpected NUL byte"
  | .nameTooLong => "File name too long (os error 36)"
  | .missing => "No such file or directory (os error 2)"
  | .notDirectory => "Not a directory (os error 20)"
  | .isDirectory => "Is a directory (os error 21)"
  | .notText => "stream did not contain valid UTF-8"

/-- The most bytes in the text of a path that is looked up. -/
def maxPathSize : Nat := 4095

/-- The most bytes in a name that is looked up in a directory. -/
def maxNameSize : Nat := 255

/-- Why a path is refused by its text alone, whatever is on the disk. -/
def textFault? (text : String) : Option ReadFault :=
  if text.toList.contains '\x00' then some .zeroCharacter
  else if maxPathSize < text.utf8ByteSize then some .nameTooLong
  else none

/-- The files and directories that paths lead to. -/
structure Disk where
  kind? : Path → Option EntryKind
  /-- The names that lead from a directory to each file below it, in any order. -/
  below : Path → List (List String)
  read : Path → Except ReadFault String

namespace Disk

def isFile (d : Disk) (p : Path) : Bool := d.kind? p == some .file

def isDirectory (d : Disk) (p : Path) : Bool := d.kind? p == some .directory

end Disk
end LoopCapture.Files
