import LoopCapture.Diagnostic.Message
import LoopCapture.Text.Measure

/-! # Syntax errors

What went wrong is a cause; its number and wording come from the message table.
-/

namespace LoopCapture.Diagnostic
open Text (Offset)

inductive Fault where
  | unterminatedString
  | identifierExpected
  | tokenExpected (spelling : String)
  | expressionExpected
  | typeExpected
  | invalidCharacter
  | statementExpected
  | propertyExpected
  | unterminatedTemplate
  | unterminatedRegExp
deriving DecidableEq, Repr

def Fault.code : Fault → Code
  | .unterminatedString => 1002
  | .identifierExpected => 1003
  | .tokenExpected _ => 1005
  | .expressionExpected => 1109
  | .typeExpected => 1110
  | .invalidCharacter => 1127
  | .statementExpected => 1128
  | .propertyExpected => 1136
  | .unterminatedTemplate => 1160
  | .unterminatedRegExp => 1161

def Fault.arguments : Fault → List String
  | .tokenExpected spelling => [spelling]
  | _ => []

def Fault.text (fault : Fault) : String :=
  formatMessage (((message? fault.code).map (·.template)).getD "") fault.arguments

/-- A fault and the bytes it concerns. -/
structure SyntaxError where
  fault : Fault
  start : Offset
  length : Nat
deriving DecidableEq, Repr

end LoopCapture.Diagnostic
