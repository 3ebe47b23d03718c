import LoopCapture.Token.Keyword
import LoopCapture.Token.Punctuator

/-! # Kinds of token -/

namespace LoopCapture.Token

/-- The part of a template literal between two of its delimiters. -/
inductive TemplatePart where
  | whole
  | head
  | middle
  | tail
deriving DecidableEq, Repr, Inhabited

/-- What a token is. A scanner that has not scanned yet holds the unknown kind, as does a
character that begins no token. -/
inductive Kind where
  | unknown
  | endOfFile
  | identifier
  | privateName
  | number
  | bigInt
  | string
  | regExp
  | template (part : TemplatePart)
  | punctuator (mark : Punctuator)
  | keyword (word : Keyword)
deriving DecidableEq, Repr, Inhabited

namespace Kind

/-- How tokens of a kind are written, empty for the kinds with many spellings. -/
def spelling : Kind → String
  | .punctuator mark => mark.spelling
  | .keyword word => word.spelling
  | _ => ""

def isReserved : Kind → Bool
  | .keyword word => word.isReserved
  | _ => false

def isContextual : Kind → Bool
  | .keyword word => word.isContextual
  | _ => false

/-- A kind that may stand for a variable. -/
def isName (kind : Kind) : Bool := kind == .identifier || kind.isContextual

/-- A kind written like a name, reserved words among them. -/
def isWord : Kind → Bool
  | .identifier | .keyword _ => true
  | _ => false

def isAssignment : Kind → Bool
  | .punctuator mark => mark.isAssignment
  | _ => false

/-- The kinds that begin a template literal. -/
def isTemplateStart : Kind → Bool
  | .template .whole | .template .head => true
  | _ => false

end Kind
end LoopCapture.Token
