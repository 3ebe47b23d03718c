import LoopCapture.Syntax.Table
import LoopCapture.Token.Scanner

/-! # The state of a parse

A parse stands on one token and has made the nodes before it. Errors are collected, one at most for
each place in a row; a count tells also of the errors that were not kept. Looking ahead goes back to
the token it began at; trying something that fails goes back to all that it began with.
-/

namespace LoopCapture.Grammar
open Text (Offset)
open Token (Kind Keyword Punctuator Scanner)
open Diagnostic (Fault SyntaxError)
open Syntax (Child Node NodeId NodeTable Shape)

/-- What the surroundings of a construct say about the meaning of its words. -/
structure Context where
  inFunction : Bool := false
  /-- Inside an async function: `await` is an operator. -/
  isAsync : Bool := false
  /-- Inside a generator: `yield` is an operator. -/
  isGenerator : Bool := false
  /-- At the head of a `for`: `in` is not an operator. -/
  withoutIn : Bool := false
  /-- In the bound of a conditional type, which is no conditional type itself. -/
  withoutConditional : Bool := false
deriving DecidableEq, Repr, Inhabited

/-- `await` is an operator in async functions and outside all functions. -/
def Context.awaitIsOperator (c : Context) : Bool := c.isAsync || !c.inFunction

/-- How deeply the guarded constructs may nest. -/
def depthLimit : Nat := 1000

/-- A parse in progress. -/
structure State where
  scanner : Scanner
  nodes : NodeTable
  /-- The errors that were kept. -/
  errors : Array SyntaxError
  /-- The number of errors met, kept or not. -/
  errorCount : Nat
  /-- Where the last consumed token ended. -/
  lastEnd : Offset
  context : Context
  /-- How deeply the guarded constructs are nested. -/
  depth : Nat
  size : Nat
deriving Inhabited

/-- The state before the first token. -/
def State.ofText (text : List Char) : State :=
  ⟨.ofText text, #[], #[], 0, 0, {}, 0, Text.byteSize text⟩

/-- How a token is read again where the grammar takes it for another one. -/
inductive Rereading where
  /-- A greater-than sign, as the longest operator that it begins. -/
  | greater
  /-- A slash, as the start of a regular expression. -/
  | slash
  /-- A closing brace, as the end of a template substitution. -/
  | template
deriving DecidableEq, Repr

/-- The scanner after its token was read again. -/
def Rereading.apply (again : Rereading) (s : Scanner) : Scanner :=
  match again with
  | .greater => s.rescanGreater
  | .slash => s.rescanSlash
  | .template => s.rescanTemplate

/-- What an attempt that fails goes back to. Of nodes and errors the number is enough, as they are
only added to. -/
structure Mark where
  scanner : Scanner
  lastEnd : Offset
  nodeCount : Nat
  keptErrors : Nat
  errorCount : Nat
  context : Context
  depth : Nat

namespace State

def advance (s : State) : State :=
  { s with lastEnd := s.scanner.stop.offset, scanner := s.scanner.scan }

def reread (s : State) (again : Rereading) : State := { s with scanner := again.apply s.scanner }

/-- Reports a fault of the current token, unless the last report was about the same place. -/
def reportHere (s : State) (fault : Fault) : State :=
  let start := s.scanner.start.offset
  { s with
    errorCount := s.errorCount + 1
    errors :=
      if s.errors.back?.any (·.start == start) then s.errors
      else s.errors.push ⟨fault, start, s.scanner.stop.offset - start⟩ }

def addNode (s : State) (start stop : Offset) (shape : Shape) : State :=
  { s with nodes := s.nodes.push ⟨start, stop, shape⟩ }

/-- Gives up a construct that is nested too deeply. This is reported at the limit alone, and the
level stays raised. -/
def giveUp (s : State) : State :=
  let reported := if s.depth = depthLimit then s.reportHere .expressionExpected else s
  { reported with depth := s.depth + 1 }

/-- Goes back to the token of an earlier state. -/
def rewindToken (s : State) (scanner : Scanner) (lastEnd : Offset) : State :=
  { s with scanner := s.scanner.rewind scanner, lastEnd }

def mark (s : State) : Mark :=
  { scanner := s.scanner
    lastEnd := s.lastEnd
    nodeCount := s.nodes.size
    keptErrors := s.errors.size
    errorCount := s.errorCount
    context := s.context
    depth := s.depth }

def rewind (s : State) (m : Mark) : State :=
  { s.rewindToken m.scanner m.lastEnd with
    nodes := s.nodes.shrink m.nodeCount
    errors := s.errors.shrink m.keptErrors
    errorCount := m.errorCount
    context := m.context
    depth := m.depth }

end State
end LoopCapture.Grammar
