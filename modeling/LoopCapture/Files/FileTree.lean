import LoopCapture.Files.Disk

/-! # File trees

A disk whose files are listed with the names of the directories they are in. Directories exist when
they are listed or when something is in them.
-/

namespace LoopCapture.Files

/-- The names that lead to a place from the root. -/
abbrev Location := List String

/-- Files with their bytes, and directories that may be empty. -/
structure FileTree where
  files : List (Location × ByteArray)
  directories : List Location

namespace FileTree

def file? (t : FileTree) (place : Location) : Option ByteArray := t.files.lookup place

def hasDirectory (t : FileTree) (place : Location) : Bool :=
  t.directories.any place.isPrefixOf ||
    t.files.any fun (other, _) => place.isPrefixOf other && place ≠ other

/-- Follows the segments of a path from a location. Every step is made in a directory, and a name is
measured when it is looked up there. -/
def follow (t : FileTree) (place : Location) : List String → Except ReadFault Location
  | [] => .ok place
  | s :: rest =>
    if (t.file? place).isSome then .error .notDirectory
    else if !t.hasDirectory place then .error .missing
    else if isFiller s then t.follow place rest
    else if s = ".." then t.follow place.dropLast rest
    else if maxNameSize < s.utf8ByteSize then .error .nameTooLong
    else t.follow (place ++ [s]) rest

/-- Where a path leads. Its text is looked at before the tree. -/
def locate (t : FileTree) (p : Path) : Except ReadFault Location :=
  match textFault? p.text with
  | some fault => .error fault
  | none => t.follow [] p.segments

def kind? (t : FileTree) (p : Path) : Option EntryKind :=
  match t.locate p with
  | .error _ => none
  | .ok place =>
    if (t.file? place).isSome then some .file
    else if t.hasDirectory place then some .directory
    else none

/-- The names that lead from a directory to the files below it. -/
def below (t : FileTree) (p : Path) : List (List String) :=
  match t.locate p with
  | .error _ => []
  | .ok place =>
    t.files.filterMap fun (other, _) =>
      if place.isPrefixOf other && place ≠ other then some (other.drop place.length) else none

def read (t : FileTree) (p : Path) : Except ReadFault String :=
  match t.locate p with
  | .error fault => .error fault
  | .ok place =>
    match t.file? place with
    | some bytes =>
      match String.fromUTF8? bytes with
      | some text => .ok text
      | none => .error .notText
    | none => .error (if t.hasDirectory place then .isDirectory else .missing)

def disk (t : FileTree) : Disk := { kind? := t.kind?, below := t.below, read := t.read }

end FileTree
end LoopCapture.Files
