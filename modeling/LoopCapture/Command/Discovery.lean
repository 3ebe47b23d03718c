import LoopCapture.Files.Disk
import LoopCapture.Settings.Config

/-! # The files of a command

A file that is named is always linted; of the files below a named directory those that the filter
admits. Each file is listed once, in the order of paths.
-/

namespace LoopCapture.Command
open Files (Disk Path)
open Settings (Filter)

inductive Failure where
  | unreadableConfig (path : Path) (cause : Files.ReadFault)
  | badConfig (path : Path) (cause : Settings.Fault)
  | badSettings (cause : Settings.Fault)
  | nothingAt (path : Path)
  | unreadableFile (path : Path) (cause : Files.ReadFault)

def Failure.text : Failure → String
  | .unreadableConfig path cause => "failed to read config: " ++ path.text ++ ": " ++ cause.text
  | .badConfig path cause => "failed to parse config: " ++ path.text ++ ": " ++ cause.text
  | .badSettings cause => cause.text
  | .nothingAt path => "no such file or directory: " ++ path.text
  | .unreadableFile path cause => "failed to read " ++ path.text ++ ": " ++ cause.text

/-- The files that a path stands for, in any order. -/
def filesAt (disk : Disk) (filter : Filter) (root : Path) : Except Failure (List Path) :=
  match disk.kind? root with
  | some .file => .ok [root]
  | some .directory =>
    let admitted := (disk.below root).filter fun names => filter.admits ("/".intercalate names)
    .ok (admitted.map root.below)
  | none => .error (.nothingAt root)

def dropRepeats : List Path → List Path
  | [] => []
  | [p] => [p]
  | p :: q :: rest =>
    if p.isSame q then dropRepeats (p :: rest) else p :: dropRepeats (q :: rest)
termination_by paths => paths.length

/-- Paths in order, each once. -/
def inOrder (paths : List Path) : List Path :=
  dropRepeats (paths.mergeSort fun a b => !b.precedes a)

/-- The paths that are searched: those that are named, or else the working directory. -/
def roots (workingDirectory : Path) (paths : List String) : List Path :=
  if paths.isEmpty then [workingDirectory]
  else paths.map fun path => workingDirectory.join (.ofText path)

def discover (disk : Disk) (workingDirectory : Path) (filter : Filter) (paths : List String) :
    Except Failure (List Path) := do
  return inOrder (← (roots workingDirectory paths).mapM (filesAt disk filter)).flatten

end LoopCapture.Command
