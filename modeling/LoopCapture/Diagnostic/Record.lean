import LoopCapture.Diagnostic.SyntaxError

/-! # Diagnostics

A diagnostic is what is told about a place of a file. Syntax errors carry the number of their
message; findings of a rule carry the name of the rule and the number zero.
-/

namespace LoopCapture
open Text (Offset)
open Diagnostic (Category Code SyntaxError)

/-- A message about the bytes of a file from `start` on. -/
structure Diagnostic where
  file : String
  start : Offset
  length : Nat
  text : String
  category : Category
  code : Code
  /-- The rule that found it, absent for a syntax error. -/
  rule : Option String
deriving DecidableEq, Repr, Inhabited

namespace Diagnostic

def ofSyntaxError (file : String) (e : SyntaxError) : Diagnostic :=
  { file, start := e.start, length := e.length, text := e.fault.text, category := .error,
    code := e.fault.code, rule := none }

def isError (d : Diagnostic) : Bool := d.category == .error

end Diagnostic
end LoopCapture
