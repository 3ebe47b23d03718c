import LoopCapture.Diagnostic.SyntaxError
import LoopCapture.Text.Alphabetic
import LoopCapture.Text.Numeric
import LoopCapture.Token.Cursor
import LoopCapture.Token.Kind

/-! # Single tokens

Reading one token at a cursor that stands on its first character. Literals that are not closed are
read as far as they go and carry a fault.
-/

namespace LoopCapture.Token
open Text (Offset isLineBreak isAlphabetic isNumeric)
open Diagnostic (Fault)

/-- A token without its start: its kind, its value, where it ends and what is wrong with it. -/
structure Lexeme where
  kind : Kind
  value : String
  after : Cursor
  fault : Option Fault := none

def isNameStart (c : Char) : Bool := c == '$' || c == '_' || isAlphabetic c

def isNamePart (c : Char) : Bool :=
  c == '$' || c == '_' || c == '\u200c' || c == '\u200d' || isAlphabetic c || isNumeric c

/-- A literal that was read up to `after`, its value in reverse, closed or not. -/
structure Delimited where
  reversed : List Char
  after : Cursor
  closed : Bool

def Delimited.value (d : Delimited) : String := String.ofList d.reversed.reverse

/-- What a character after a backslash stands for; a line terminator stands for nothing. -/
def unescape? : Char → Option Char
  | 'n' => some '\n'
  | 't' => some '\t'
  | 'r' => some '\r'
  | 'b' => some '\x08'
  | 'f' => some '\x0c'
  | 'v' => some '\x0b'
  | '0' => some '\x00'
  | c => if isLineBreak c then none else some c

/-- Reads a string up to its closing quote, given the text after the opening one. A line feed or
carriage return that is not escaped ends it early. -/
def readString (quote : Char) (reversed : List Char) : Offset → List Char → Delimited
  | offset, [] => ⟨reversed, ⟨offset, []⟩, false⟩
  | offset, ['\\'] => ⟨reversed, ⟨offset + 1, []⟩, false⟩
  | offset, '\\' :: '\r' :: '\n' :: cs => readString quote reversed (offset + 3) cs
  | offset, '\\' :: e :: cs =>
    readString quote ((unescape? e).elim reversed (· :: reversed)) (offset + 1 + e.utf8Size) cs
  | offset, c :: cs =>
    if c == quote then ⟨reversed, ⟨offset + 1, cs⟩, true⟩
    else if c == '\n' || c == '\r' then ⟨reversed, ⟨offset, c :: cs⟩, false⟩
    else readString quote (c :: reversed) (offset + c.utf8Size) cs

/-- How a stretch of template text ends. -/
inductive TemplateEnd where
  | closed
  | substitution
  | endOfText
deriving DecidableEq

/-- Reads template text, given the text after a backtick or a closing brace. Escapes are kept as
they are written. -/
def readTemplate (reversed : List Char) : Offset → List Char → List Char × Cursor × TemplateEnd
  | offset, [] => (reversed, ⟨offset, []⟩, .endOfText)
  | offset, '\x60' :: cs => (reversed, ⟨offset + 1, cs⟩, .closed)
  | offset, '$' :: '{' :: cs => (reversed, ⟨offset + 2, cs⟩, .substitution)
  | offset, ['\\'] => ('\\' :: reversed, ⟨offset + 1, []⟩, .endOfText)
  | offset, '\\' :: e :: cs => readTemplate (e :: '\\' :: reversed) (offset + 1 + e.utf8Size) cs
  | offset, c :: cs => readTemplate (c :: reversed) (offset + c.utf8Size) cs

def templateLexeme (fromBacktick : Bool) (c : Cursor) : Lexeme :=
  let (reversed, after, ending) := readTemplate [] c.offset c.rest
  let part : TemplatePart :=
    match ending, fromBacktick with
    | .substitution, true => .head
    | .substitution, false => .middle
    | _, true => .whole
    | _, false => .tail
  { kind := .template part, value := String.ofList reversed.reverse, after,
    fault := if ending = .endOfText then some .unterminatedTemplate else none }

/-- Reads the body of a regular expression, given the text after the opening slash. A slash inside
a character class does not close it; a line terminator ends it early. -/
def readRegExp (inClass : Bool) : Offset → List Char → Cursor × Bool
  | offset, [] => (⟨offset, []⟩, false)
  | offset, ['\\'] => (⟨offset + 1, []⟩, false)
  | offset, '\\' :: e :: cs =>
    if isLineBreak e then (⟨offset + 1, e :: cs⟩, false)
    else readRegExp inClass (offset + 1 + e.utf8Size) cs
  | offset, c :: cs =>
    if isLineBreak c then (⟨offset, c :: cs⟩, false)
    else if c == '/' && !inClass then (⟨offset + 1, cs⟩, true)
    else
      let inClass := if c == '[' then true else if c == ']' then false else inClass
      readRegExp inClass (offset + c.utf8Size) cs

/-- The regular expression literal at a cursor that stands on its opening slash, with its flags. -/
def regExpLexeme (c : Cursor) : Lexeme :=
  let (body, closed) := readRegExp false (c.offset + 1) (c.rest.drop 1)
  let after := body.skipWhile isNamePart
  { kind := .regExp, value := String.ofList (c.textTo after), after,
    fault := if closed then none else some .unterminatedRegExp }

/-- Decimal digits and the separators between them. -/
def skipDigits (c : Cursor) : Cursor := c.skipWhile fun x => x.isDigit || x == '_'

/-- Past an exponent, if there is one with a digit. -/
def skipExponent (c : Cursor) : Cursor :=
  match c.rest with
  | e :: d :: cs =>
    if e == 'e' || e == 'E' then
      if d.isDigit then skipDigits ⟨c.offset + 1, d :: cs⟩
      else if (d == '+' || d == '-') && cs.head?.any (·.isDigit) then
        skipDigits ⟨c.offset + 2, cs⟩
      else c
    else c
  | _ => c

/-- Past the digits of a number, a fraction and an exponent included, without the mark of a big
integer. A number with a base takes every letter and digit up to that mark. -/
def skipNumber (c : Cursor) : Cursor :=
  let decimal : Cursor :=
    let whole := skipDigits c
    skipExponent <| match whole.rest with
      | '.' :: cs => skipDigits ⟨whole.offset + 1, cs⟩
      | _ => whole
  match c.rest with
  | '0' :: b :: cs =>
    if b ∈ ['x', 'X', 'o', 'O', 'b', 'B'] then
      Cursor.skipFrom (fun x => (x.isAlphanum || x == '_') && x != 'n') (c.offset + 2) cs
    else decimal
  | _ => decimal

def numberLexeme (c : Cursor) : Lexeme :=
  let digits := skipNumber c
  match digits.rest with
  | 'n' :: cs =>
    let after : Cursor := ⟨digits.offset + 1, cs⟩
    { kind := .bigInt, value := String.ofList (c.textTo after), after }
  | _ => { kind := .number, value := String.ofList (c.textTo digits), after := digits }

def wordLexeme (c : Cursor) : Lexeme :=
  let after := c.skipWhile isNamePart
  let value := String.ofList (c.textTo after)
  { kind := ((Keyword.ofSpelling? value).map Kind.keyword).getD .identifier, value, after }

/-- The string at a cursor that stands on its opening quote. -/
def stringLexeme (c : Cursor) (quote : Char) (cs : List Char) : Lexeme :=
  let text := readString quote [] (c.offset + 1) cs
  { kind := .string, value := text.value, after := text.after,
    fault := if text.closed then none else some .unterminatedString }

/-- The token at a cursor that stands on the character `x` before the text `cs`. -/
def lexeme (c : Cursor) (x : Char) (cs : List Char) : Lexeme :=
  if x == '"' || x == '\'' then stringLexeme c x cs
  else if x == '\x60' then templateLexeme true ⟨c.offset + 1, cs⟩
  else if x.isDigit || (x == '.' && cs.head?.any (·.isDigit)) then numberLexeme c
  else if x == '#' && cs.head?.any isNameStart then
    let name : Cursor := ⟨c.offset + 1, cs⟩
    let after := name.skipWhile isNamePart
    { kind := .privateName, value := String.ofList (name.textTo after), after }
  else if isNameStart x then wordLexeme c
  else match Punctuator.read? (x :: cs) with
    | some (mark, rest) =>
      { kind := .punctuator mark, value := "",
        after := ⟨c.offset + mark.spelling.length, rest⟩ }
    | none =>
      { kind := .unknown, value := "", after := ⟨c.offset + x.utf8Size, cs⟩,
        fault := some .invalidCharacter }

end LoopCapture.Token
