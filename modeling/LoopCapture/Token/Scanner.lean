import LoopCapture.Token.Lexeme
import LoopCapture.Token.Trivia

/-! # Scanners

A scanner stands on one token of a text and moves to the next on demand. Three kinds of token read
differently where the grammar says so, and are then read again: a greater-than sign as a longer
operator, a slash as a regular expression, a closing brace as the rest of a template.
-/

namespace LoopCapture.Token
open Text (Offset)
open Diagnostic (Fault SyntaxError)

/-- The current token between two cursors, and the errors met so far. -/
structure Scanner where
  start : Cursor
  stop : Cursor
  kind : Kind
  value : String
  lineBreak : Bool
  errors : Array SyntaxError
deriving Inhabited

namespace Scanner

def ofText (text : List Char) : Scanner :=
  ⟨.ofText text, .ofText text, .unknown, "", false, #[]⟩

def tokenText (s : Scanner) : String := String.ofList (s.start.textTo s.stop)

def note (errors : Array SyntaxError) : Option SyntaxError → Array SyntaxError
  | some error => errors.push error
  | none => errors

/-- The current token gives way to a lexeme that starts at the cursor. -/
def become (s : Scanner) (start : Cursor) (l : Lexeme) : Scanner :=
  { s with
    start, stop := l.after, kind := l.kind, value := l.value,
    errors := note s.errors
      (l.fault.map fun fault => ⟨fault, start.offset, l.after.offset - start.offset⟩) }

/-- Moves to the next token. At the end of the text it stays there. -/
def scan (s : Scanner) : Scanner :=
  let trivia := skipTrivia s.stop false
  let s := { s with lineBreak := trivia.lineBreak, errors := note s.errors trivia.error }
  match trivia.cursor.rest with
  | [] => s.become trivia.cursor ⟨.endOfFile, "", trivia.cursor, none⟩
  | x :: cs => s.become trivia.cursor (lexeme trivia.cursor x cs)

/-- Reads a greater-than sign as the longest operator that it begins. -/
def rescanGreater (s : Scanner) : Scanner :=
  if s.kind = .punctuator .greater then
    let (mark, rest) := Punctuator.extendGreater s.stop.rest
    { s with
      kind := .punctuator mark
      stop := ⟨s.stop.offset + (mark.spelling.length - 1), rest⟩ }
  else s

/-- Reads a slash as the start of a regular expression. -/
def rescanSlash (s : Scanner) : Scanner :=
  if s.kind = .punctuator .slash ∨ s.kind = .punctuator .slashEq then
    s.become s.start (regExpLexeme s.start)
  else s

def rescanTemplate (s : Scanner) : Scanner :=
  if s.kind = .punctuator .closeBrace then
    s.become s.start (templateLexeme false ⟨s.start.offset + 1, s.start.rest.drop 1⟩)
  else s

/-- Goes back to an earlier state. Errors met since are dropped, and errors that were taken away
since stay away. -/
def rewind (s saved : Scanner) : Scanner :=
  { saved with errors := s.errors.take saved.errors.size }

def takeErrors (s : Scanner) : Array SyntaxError × Scanner := (s.errors, { s with errors := #[] })

end Scanner

/-- The tokens from a scanner on, the end of file last, each as the scanner that stands on it after
the adjustment. The count bounds the number of tokens. -/
def tokensFrom (adjust : Scanner → Scanner) : Nat → Scanner → List Scanner
  | 0, _ => []
  | n + 1, s =>
    let s := adjust s.scan
    if s.kind = .endOfFile then [s] else s :: tokensFrom adjust n s

/-- All tokens of a text, the end of file last, each adjusted before the next one is scanned. A text
has no more tokens than characters. -/
def tokens (text : List Char) (adjust : Scanner → Scanner := id) : List Scanner :=
  tokensFrom adjust (text.length + 1) (.ofText text)

end LoopCapture.Token
