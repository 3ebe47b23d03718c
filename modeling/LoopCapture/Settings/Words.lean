import LoopCapture.Capture.Lint
import LoopCapture.Json.Reader

/-! # Severities, accesses and source types in JSON

A severity is written by name or by number, an access to a global by name or as whether it may be
written. A source type is one of two names.
-/

namespace LoopCapture.Settings
open Capture (Severity)
open Json (Fault Reader)
open Scope (GlobalAccess SourceType)

def severityMessage (word : String) : String :=
  "'" ++ word ++ "' is not a valid severity; expected \"off\", \"warn\" or \"error\""

def levelMessage (level : Nat) : String :=
  toString level ++ " is not a valid severity; expected 0, 1 or 2"

def accessMessage (word : String) : String :=
  "'" ++ word ++ "' is not a valid global access; expected \"readonly\", \"writable\" or \"off\""

/-- What is told about a value of none of the forms that stand for something. -/
def formMessage (name : String) : String :=
  "data did not match any variant of untagged enum " ++ name

def orMessage {α : Type} (message : String) : Option α → Except Fault α
  | some a => .ok a
  | none => .error (.unfit message)

def severityOf : Json.Value → Except Fault Severity
  | .string word => orMessage (severityMessage word) (Severity.ofWord? word)
  | .integer (.ofNat level) => orMessage (levelMessage level) (Severity.ofLevel? level)
  | _ => .error (.unfit (formMessage "RawSeverity"))

def accessOfWord (word : String) : Except Fault GlobalAccess :=
  orMessage (accessMessage word) (GlobalAccess.ofWord? word)

def accessOf : Json.Value → Except Fault GlobalAccess
  | .string word => accessOfWord word
  | .boolean isWritable => .ok (.ofFlag isWritable)
  | _ => .error (.unfit (formMessage "RawGlobalAccess"))

/-- Takes a value of any type and what it stands for. -/
def meaning {α : Type} (levels : Nat) (of : Json.Value → Except Fault α) : Reader α := do
  match of (← Reader.value levels) with
  | .ok a => return a
  | .error fault => throw fault

def readSeverity (levels : Nat) : Reader Severity := meaning levels severityOf

def readAccess (levels : Nat) : Reader GlobalAccess := meaning levels accessOf

def readSourceType (levels : Nat) : Reader SourceType :=
  Reader.choice levels ["script", "module"] SourceType.ofWord?

end LoopCapture.Settings
