import LoopCapture.Diagnostic.Message

/-! # Colours of a report -/

namespace LoopCapture.Report
open Diagnostic (Category)

inductive Colour where
  | red
  | yellow
  | blue
  | cyan
  | brightBlue
deriving DecidableEq, Repr

def Colour.code : Colour → String
  | .red => "31"
  | .yellow => "33"
  | .blue => "34"
  | .cyan => "36"
  | .brightBlue => "94"

structure Style where
  colour : Colour
  isBold : Bool := false
deriving DecidableEq, Repr

def Style.apply (s : Style) (text : String) : String :=
  "\x1b[" ++ (if s.isBold then "1;" else "") ++ s.colour.code ++ "m" ++ text ++ "\x1b[0m"

def styled (color : Bool) (s : Style) (text : String) : String :=
  if color then s.apply text else text

def categoryStyle : Category → Style
  | .error => ⟨.red, true⟩
  | .warning => ⟨.yellow, true⟩
  | .suggestion => ⟨.blue, true⟩
  | .message => ⟨.cyan, true⟩

def codeStyle : Style := ⟨.brightBlue, false⟩

def underlineStyle : Style := ⟨.red, false⟩

def summaryStyle (errors : Nat) : Style := if 0 < errors then ⟨.red, true⟩ else ⟨.yellow, true⟩

end LoopCapture.Report
