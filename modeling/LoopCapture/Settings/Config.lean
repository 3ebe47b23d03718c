import LoopCapture.Files.Path
import LoopCapture.Settings.Filter
import LoopCapture.Settings.Words

/-! # Settings

What is linted and how: the globs of files, how serious findings are, the globals that exist without
a declaration, and how texts run. Settings come from a JSON text; globals can be added by flags.
-/

namespace LoopCapture
open Capture (LintOptions Severity)
open Files (Path)
open Json (Reader)
open Scope (GlobalAccess Globals SourceType)

/-- The extensions of files that are linted when nothing else is said. -/
def lintedExtensions : List String := ["js", "mjs", "cjs", "ts", "mts", "cts"]

/-- What is linted and how. -/
structure Settings where
  included : List String := lintedExtensions.map ("**/*." ++ ·)
  excluded : List String := ["**/node_modules/**"]
  severity : Severity := .error
  globals : Globals := []
  /-- How all texts run; when absent, the name of a file tells. -/
  sourceType : Option SourceType := none
deriving Inhabited

namespace Settings

/-- The list of globs that a bad one is in. -/
inductive GlobList where
  | including
  | excluding
deriving DecidableEq, Repr

def GlobList.word : GlobList → String
  | .including => "include"
  | .excluding => "exclude"

inductive Fault where
  | unreadable (cause : Json.Fault)
  | unknownAccess (word : String)
  | namelessGlobal (flag : String)
  | badGlob (list : GlobList) (glob : String) (cause : Glob.Fault)

namespace Fault

/-- What was being done, without the cause that lies underneath. -/
def context : Fault → String
  | .unreadable _ => "failed to parse loopguard config JSON"
  | .unknownAccess word => "invalid access '" ++ word ++ "' for --global"
  | .namelessGlobal flag => "--global needs a variable name, got '" ++ flag ++ "'"
  | .badGlob list glob cause =>
    "invalid " ++ list.word ++ " pattern: failed to compile glob '" ++ glob ++
      "': error parsing glob '" ++ glob ++ "': " ++ cause.text

/-- The fault in reading a value that lies underneath. -/
def cause? : Fault → Option Json.Fault
  | .unreadable cause => some cause
  | .unknownAccess word => some (.unfit (accessMessage word))
  | _ => none

def text (fault : Fault) : String :=
  fault.context ++ (fault.cause?.elim "" fun cause => ": " ++ cause.text)

end Fault

def keys : List String := ["include", "exclude", "rules", "globals", "sourceType"]

structure Draft where
  included : Option (List String) := none
  excluded : Option (List String) := none
  severity : Option Severity := none
  globals : Option Globals := none
  sourceType : Option (Option SourceType) := none

/-- What is not given has its default. -/
def Draft.complete (d : Draft) : Settings :=
  let defaults : Settings := {}
  { included := d.included.getD defaults.included
    excluded := d.excluded.getD defaults.excluded
    severity := d.severity.getD defaults.severity
    globals := d.globals.getD defaults.globals
    sourceType := d.sourceType.getD defaults.sourceType }

def readGlobs (levels : Nat) : Reader (List String) :=
  Reader.list levels fun _ => Reader.string "a string"

/-- Takes the table of globals. A name that is given twice has its last access. -/
def readGlobals (levels : Nat) : Reader Globals :=
  let entry (levels : Nat) (globals : Globals) (name : String) : Reader Globals := do
    Reader.colon
    return globals.put name (← readAccess levels)
  Reader.map levels entry []

/-- Takes the severities of rules, of which there is one. -/
def readRules (levels : Nat) : Reader Severity := do
  let inOrder (levels : Nat) : Reader (Option Severity) :=
    Reader.element? true (readSeverity levels)
  let member (levels : Nat) (held : Option Severity) (key : String) : Reader (Option Severity) :=
    if key = Capture.ruleName then Reader.field key held (readSeverity levels)
    else Reader.unknownField key [Capture.ruleName]
  return (← Reader.record levels "RulesConfig" inOrder member none).getD .error

/-- Takes a source type or nothing in its place. -/
def readSourceType? (levels : Nat) : Reader (Option SourceType) := do
  if (← Reader.peek?) = some 'n' then
    discard Reader.scalar
    return none
  return some (← readSourceType levels)

def readMember (levels : Nat) (d : Draft) (key : String) : Reader Draft := do
  match key with
  | "include" => return { d with included := ← Reader.field key d.included (readGlobs levels) }
  | "exclude" => return { d with excluded := ← Reader.field key d.excluded (readGlobs levels) }
  | "rules" => return { d with severity := ← Reader.field key d.severity (readRules levels) }
  | "globals" => return { d with globals := ← Reader.field key d.globals (readGlobals levels) }
  | "sourceType" =>
    return { d with sourceType := ← Reader.field key d.sourceType (readSourceType? levels) }
  | _ => Reader.unknownField key keys

/-- Takes the elements of an array in the order of the keys. -/
def readInOrder (levels : Nat) : Reader Draft := do
  let included ← Reader.element? true (readGlobs levels)
  let excluded ← Reader.element? false (readGlobs levels)
  let severity ← Reader.element? false (readRules levels)
  let globals ← Reader.element? false (readGlobals levels)
  let sourceType ← Reader.element? false (readSourceType? levels)
  return { included, excluded, severity, globals, sourceType }

def reader (levels : Nat) : Reader Settings := do
  return (← Reader.record levels "LoopguardConfig" readInOrder readMember {}).complete

def ofText (text : String) : Except Fault Settings :=
  match (reader Json.levelLimit).run text with
  | .ok s => .ok s
  | .error cause => .error (.unreadable cause)

/-- The name and the access that a flag gives. Without an access a global can be read only. -/
def flagParts (flag : String) : Except Fault (String × GlobalAccess) :=
  let name := String.ofList (flag.toList.takeWhile (· ≠ ':'))
  match flag.toList.dropWhile (· ≠ ':') with
  | [] => .ok (name, .readonly)
  | _ :: rest =>
    let word := String.ofList rest
    match GlobalAccess.ofWord? word with
    | some access => .ok (name, access)
    | none => .error (.unknownAccess word)

def addGlobal (s : Settings) (flag : String) : Except Fault Settings := do
  let (name, access) ← flagParts flag
  if name.isEmpty then throw (.namelessGlobal flag)
  return { s with globals := s.globals.put name access }

/-- Adds the globals that flags name, one after the other. -/
def addGlobals (s : Settings) (flags : List String) : Except Fault Settings :=
  flags.foldlM addGlobal s

def readList (list : GlobList) (globs : List String) : Except Fault (List (List Glob.Piece)) :=
  globs.mapM fun glob =>
    match Glob.read glob with
    | .ok pieces => .ok pieces
    | .error cause => .error (.badGlob list glob cause)

def filter (s : Settings) : Except Fault Filter := do
  let included ← readList .including s.included
  let excluded ← readList .excluding s.excluded
  return { included, excluded }

/-- How a file runs, as its extension tells. -/
def sourceTypeOf (path : Path) : SourceType :=
  match path.extension? with
  | some "cjs" | some "cts" => .script
  | _ => .module

def lintOptions (s : Settings) (path : Path) : LintOptions :=
  { severity := s.severity
    environment :=
      { sourceType := s.sourceType.getD (sourceTypeOf path), globals := s.globals } }

end Settings
end LoopCapture
