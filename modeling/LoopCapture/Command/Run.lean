import LoopCapture.Command.Arguments
import LoopCapture.Command.Discovery
import LoopCapture.Report.Json
import LoopCapture.Report.Text

/-! # Running a command

A command finds its settings and its files, lints the files, and makes a report with a status that
tells whether there is anything to mend.
-/

namespace LoopCapture.Command
open Files (Disk Path)
open Report (FileReport)

def configName : String := "loopguard.json"

structure Summary where
  output : String
  errors : Nat := 0
  warnings : Nat := 0
  /-- The status tells of errors, or of more warnings than are allowed. -/
  isFailed : Bool := false

def Summary.exitCode (s : Summary) : Nat := if s.isFailed then 1 else 0

def failureCode : Nat := 2

def loadSettings (disk : Disk) (path : Path) : Except Failure Settings :=
  match disk.read path with
  | .error cause => .error (.unreadableConfig path cause)
  | .ok text =>
    match Settings.ofText text with
    | .error cause => .error (.badConfig path cause)
    | .ok settings => .ok settings

def configPlaces (workingDirectory : Path) : List Path :=
  workingDirectory.ancestors.map fun directory => directory.below [configName]

/-- The settings of the named file, or else of the innermost settings file, or else the defaults. -/
def findSettings (disk : Disk) (workingDirectory : Path) (config : Option String) :
    Except Failure Settings :=
  match config with
  | some path => loadSettings disk (workingDirectory.join (.ofText path))
  | none =>
    match (configPlaces workingDirectory).find? disk.isFile with
    | some path => loadSettings disk path
    | none => .ok {}

/-- A result whose fault is one of the settings. -/
def orBadSettings {α : Type} : Except Settings.Fault α → Except Failure α
  | .ok a => .ok a
  | .error cause => .error (.badSettings cause)

/-- A path as it is shown: as seen from the working directory if it is below, with slashes. -/
def displayName (workingDirectory path : Path) : String :=
  let shown := ((path.relativeTo? workingDirectory).getD path).text
  String.ofList (shown.toList.map fun c => if c = '\\' then '/' else c)

def readFile (disk : Disk) (path : Path) : Except Failure (List Char) :=
  match disk.read path with
  | .error cause => .error (.unreadableFile path cause)
  | .ok text => .ok text.toList

def lintFile (disk : Disk) (workingDirectory : Path) (settings : Settings) (path : Path) :
    Except Failure FileReport := do
  let source ← readFile disk path
  let name := displayName workingDirectory path
  return { name, source, result := Capture.lint name source (settings.lintOptions path) }

def outlineFile (disk : Disk) (workingDirectory : Path) (settings : Settings) (path : Path) :
    Except Failure Json.Value := do
  let source ← readFile disk path
  let tree := (Grammar.parseText source).tree
  let graph := Scope.Graph.ofTree tree (settings.lintOptions path).environment
  return Report.fileOutlineValue (displayName workingDirectory path) (graph.outline tree)

def reportText (format : Format) (color : Bool) (reports : List FileReport) : String :=
  match format with
  | .text => Report.textReport color reports
  | .json => Report.jsonReport reports

/-- What reports on files amount to. -/
def summarize (arguments : Arguments) (color : Bool) (reports : List FileReport) : Summary :=
  let reports := if arguments.quiet then reports.map (·.errorsOnly) else reports
  let errors := Report.errorCount reports
  let warnings := Report.warningCount reports
  { output := reportText arguments.format color reports
    errors
    warnings
    isFailed := 0 < errors || arguments.maxWarnings.any (· < warnings) }

def plan (disk : Disk) (workingDirectory : Path) (arguments : Arguments) :
    Except Failure (Settings × List Path) := do
  let settings ← findSettings disk workingDirectory arguments.config
  let settings ← orBadSettings (settings.addGlobals arguments.globals)
  let filter ← orBadSettings settings.filter
  return (settings, ← discover disk workingDirectory filter arguments.paths)

def run (disk : Disk) (workingDirectory : Path) (color : Bool) (arguments : Arguments) :
    Except Failure Summary := do
  let (settings, files) ← plan disk workingDirectory arguments
  if arguments.printScopes then
    let outlines ← files.mapM (outlineFile disk workingDirectory settings)
    return { output := (Json.Value.array outlines).text }
  else
    let reports ← files.mapM (lintFile disk workingDirectory settings)
    return summarize arguments color reports

end LoopCapture.Command
