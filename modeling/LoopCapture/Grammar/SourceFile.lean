import LoopCapture.Grammar.Statements
import LoopCapture.Syntax.Tree

/-! # Whole texts

The goals are tied together here. A goal meets itself again only after a token was consumed, so the
length of the text bounds how deeply goals nest. Parsing a text always gives a tree; what was wrong
with the text is told beside it.
-/

namespace LoopCapture.Grammar
open Syntax (Child NodeId Tree)
open Diagnostic (SyntaxError)

/-- One step towards a goal, given how its parts are parsed. -/
def goalStep (parse : Parser) : Goal → Parse Child
  | .statement => guarded (statementBody parse)
  | .statementBody => statementBody parse
  | .assignment => guarded (assignmentBody parse)
  | .binary above => binaryBody parse above
  | .unary => guarded (unaryBody parse)
  | .leftHandSide => leftHandSideBody parse
  | .creation => creationBody parse
  | .bindingTarget => bindingTarget parse
  | .type => guarded (typeBody parse)
  | .typeOperator => typeOperator parse

/-- Parses a goal whose parts nest no deeper than the count. -/
def parseUpTo : Nat → Parser
  | 0, _ => labelled .bound (return none)
  | n + 1, goal => labelled (.routine goal.routine) (goalStep (parseUpTo n) goal)

/-- How many goals may be open at one token. -/
def goalsPerToken : Nat := 16

def parseWithin (size : Nat) : Parser := parseUpTo (goalsPerToken * (size + 2))

/-- The statements of a text. A closing brace without an opening one is reported and skipped. -/
def topLevelStatements (parse : Parser) :
    Parse (List NodeId) := labelled (.routine .topLevelStatements) do
  let statements ← iterate (#[] : Array NodeId) fun statements => do
    if ← isAt .endOfFile then return .done statements
    if ← atMark .closeBrace then
      reportHere .statementExpected
      advance
      return .again statements
    return .again (← listedStatement parse statements)
  return statements.toList

def sourceFile : Parse NodeId := do
  advance
  let size := (← state).size
  let statements ← topLevelStatements (parseWithin size)
  addNode 0 size (.sourceFile statements)

/-- Drops each error that starts where the one before it starts. -/
def onePerStart : List SyntaxError → List SyntaxError
  | [] => []
  | e :: es => e :: onePerStart (es.dropWhile (·.start == e.start))
termination_by es => es.length
decreasing_by
  simp only [List.length_cons]
  exact Nat.lt_succ_of_le (List.dropWhile_sublist _).length_le

/-- The errors of a parse and of its scanner in the order of their starts, one for each start. At
the same start what the parse met comes first. -/
def State.syntaxErrors (s : State) : List SyntaxError :=
  onePerStart ((s.errors.toList ++ s.scanner.errors.toList).mergeSort (·.start ≤ ·.start))

/-- A parsed text: its tree, and what was wrong with it. -/
structure ParsedText where
  tree : Tree
  errors : List SyntaxError

def parseText (text : List Char) : ParsedText :=
  let (root, s) := sourceFile.run (.ofText text)
  ⟨.ofTable s.nodes root, s.syntaxErrors⟩

end LoopCapture.Grammar
