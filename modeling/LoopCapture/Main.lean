import LoopCapture.Command.Run
import Std.Data.HashMap

/-! # The command

Reads what the command needs from the file system, runs it, and prints its report.
-/

namespace LoopCapture.Command
open Files (Disk EntryKind Path ReadFault)

/-- What has been seen of the file system, by the texts of paths. -/
structure Snapshot where
  kinds : Std.HashMap String EntryKind := {}
  below : Std.HashMap String (List (List String)) := {}
  texts : Std.HashMap String (Except ReadFault String) := {}

def Snapshot.disk (s : Snapshot) : Disk :=
  { kind? := fun p => s.kinds[p.text]?
    below := fun p => s.below[p.text]?.getD []
    read := fun p => s.texts[p.text]?.getD (.error .missing) }

def lookAt (path : String) : IO (Option EntryKind) := do
  try
    match (← ((← IO.currentDir) / path).metadata).type with
    | .dir => return some .directory
    | .file => return some .file
    | _ => return none
  catch _ => return none

/-- The names that lead from a directory of the file system to the files below it. -/
partial def walk (path : String) : IO (List (List String)) := do
  let mut found := []
  for entry in ← ((← IO.currentDir) / path).readDir do
    let name := entry.fileName
    match ← lookAt (path ++ "/" ++ name) with
    | some .file => found := [name] :: found
    | some .directory =>
      for names in ← walk (path ++ "/" ++ name) do
        found := (name :: names) :: found
    | none => pure ()
  return found

def faultOf : IO.Error → ReadFault
  | .inappropriateType .. => .notDirectory
  | .invalidArgument .. => .nameTooLong
  | _ => .missing

def readText (path : String) : IO (Except ReadFault String) := do
  if let some fault := Files.textFault? path then return .error fault
  if (← lookAt path) == some .directory then return .error .isDirectory
  try
    match String.fromUTF8? (← IO.FS.readBinFile ((← IO.currentDir) / path)) with
    | some text => return .ok text
    | none => return .error .notText
  catch e => return .error (faultOf e)

def Snapshot.addKind (s : Snapshot) (p : Path) : IO Snapshot := do
  match ← lookAt p.text with
  | some kind => return { s with kinds := s.kinds.insert p.text kind }
  | none => return s

def Snapshot.addText (s : Snapshot) (p : Path) : IO Snapshot := do
  return { s with texts := s.texts.insert p.text (← readText p.text) }

def Snapshot.addBelow (s : Snapshot) (p : Path) : IO Snapshot := do
  let s ← s.addKind p
  if s.disk.isDirectory p then
    return { s with below := s.below.insert p.text (← walk p.text) }
  return s

/-- What a command needs to see of the file system. -/
def takeSnapshot (workingDirectory : Path) (arguments : Arguments) : IO Snapshot := do
  let configs := match arguments.config with
    | some path => [workingDirectory.join (.ofText path)]
    | none => configPlaces workingDirectory
  let mut s : Snapshot := {}
  for path in configs do
    s ← s.addKind path
    s ← s.addText path
  for path in roots workingDirectory arguments.paths do
    s ← s.addBelow path
  match plan s.disk workingDirectory arguments with
  | .error _ => return s
  | .ok (_, files) =>
    for path in files do
      s ← s.addText path
    return s

def printLine (text : String) : IO Unit := do
  unless text.isEmpty do
    IO.print (if text.endsWith "\n" then text else text ++ "\n")

def execute (words : List String) : IO UInt32 := do
  match Arguments.ofWords words with
  | .error fault =>
    if fault.isWanted then
      IO.println fault.text
      return 0
    IO.eprintln ("error: " ++ fault.text)
    return failureCode.toUInt32
  | .ok arguments =>
    let workingDirectory := Path.ofText (← IO.currentDir).toString
    let color := !arguments.noColor && (← (← IO.getStdout).isTty)
    let snapshot ← takeSnapshot workingDirectory arguments
    match run snapshot.disk workingDirectory color arguments with
    | .error failure =>
      IO.eprintln ("loopguard: " ++ failure.text)
      return failureCode.toUInt32
    | .ok summary =>
      printLine summary.output
      return summary.exitCode.toUInt32

end LoopCapture.Command

def main (words : List String) : IO UInt32 := LoopCapture.Command.execute words
