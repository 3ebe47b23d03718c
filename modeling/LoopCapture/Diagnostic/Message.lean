import LoopCapture.Diagnostic.Template

/-! # The table of syntax messages

Each message has a number, a category and a template.
-/

namespace LoopCapture.Diagnostic

inductive Category where
  | warning
  | error
  | suggestion
  | message
deriving DecidableEq, Repr, Inhabited

def Category.word : Category → String
  | .warning => "warning"
  | .error => "error"
  | .suggestion => "suggestion"
  | .message => "message"

/-- The number that identifies a message. -/
abbrev Code := Nat

structure Message where
  code : Code
  category : Category
  template : String

def messages : List Message :=
  [ ⟨1002, .error, "Unterminated string literal."⟩,
    ⟨1003, .error, "Identifier expected."⟩,
    ⟨1005, .error, "'\x7b0\x7d' expected."⟩,
    ⟨1109, .error, "Expression expected."⟩,
    ⟨1110, .error, "Type expected."⟩,
    ⟨1127, .error, "Invalid character."⟩,
    ⟨1128, .error, "Declaration or statement expected."⟩,
    ⟨1136, .error, "Property assignment expected."⟩,
    ⟨1160, .error, "Unterminated template literal."⟩,
    ⟨1161, .error, "Unterminated regular expression literal."⟩ ]

def message? (code : Code) : Option Message := messages.find? (·.code == code)

end LoopCapture.Diagnostic
