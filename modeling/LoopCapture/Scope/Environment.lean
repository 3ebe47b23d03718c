/-! # What surrounds a text

Whether a text runs as a script or as a module, and which names exist without being declared in it.
-/

namespace LoopCapture.Scope

inductive SourceType where
  | script
  | module
deriving DecidableEq, Repr, Inhabited

def SourceType.word : SourceType → String
  | .script => "script"
  | .module => "module"

def SourceType.ofWord? : String → Option SourceType
  | "script" => some .script
  | "module" => some .module
  | _ => none

/-- How a global may be used. A name that is off counts as not configured. -/
inductive GlobalAccess where
  | readonly
  | writable
  | off
deriving DecidableEq, Repr, Inhabited

def GlobalAccess.word : GlobalAccess → String
  | .readonly => "readonly"
  | .writable => "writable"
  | .off => "off"

def GlobalAccess.ofWord? : String → Option GlobalAccess
  | "readonly" | "readable" => some .readonly
  | "writable" | "writeable" => some .writable
  | "off" => some .off
  | _ => none

/-- The access that a flag grants: a global may be written or not. -/
def GlobalAccess.ofFlag (isWritable : Bool) : GlobalAccess :=
  if isWritable then .writable else .readonly

/-- The configured globals in the order of their names, each name once. -/
abbrev Globals := List (String × GlobalAccess)

/-- A name is given an access, whatever it had before. -/
def Globals.put (globals : Globals) (name : String) (access : GlobalAccess) : Globals :=
  match globals with
  | [] => [(name, access)]
  | (other, held) :: rest =>
    if name < other then (name, access) :: (other, held) :: rest
    else if name = other then (name, access) :: rest
    else (other, held) :: Globals.put rest name access

/-- What is known about the surroundings of a text. -/
structure Environment where
  sourceType : SourceType := .module
  globals : Globals := []
deriving Inhabited

end LoopCapture.Scope
