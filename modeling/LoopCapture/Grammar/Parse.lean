import LoopCapture.Grammar.State

/-! # Steps of a parse

A step is a program over the state of a parse: it looks at the state, moves to the next token, adds
nodes, reports faults, and does so one level deeper, in another context, for a look ahead or for an
attempt. What holds of every program holds of every construct of the grammar.
-/

namespace LoopCapture.Grammar
open Text (Offset)
open Token (Kind Keyword Punctuator)
open Diagnostic (Fault)
open Syntax (Child NodeId Shape)

/-- The constructs that contain themselves. Every way from a construct back to itself passes through
one of these. -/
inductive Goal where
  /-- A statement, one level deeper. -/
  | statement
  /-- A statement on the same level, after decorators or `declare`. -/
  | statementBody
  /-- An assignment expression, one level deeper. -/
  | assignment
  /-- A chain of binary operators that bind tighter than a precedence. -/
  | binary (above : Nat)
  /-- A unary expression, one level deeper. -/
  | unary
  | leftHandSide
  | creation
  | bindingTarget
  /-- A type, one level deeper. -/
  | type
  /-- A type with its leading operators. -/
  | typeOperator
deriving DecidableEq, Repr

/-- The routines of a parse. Where it starts, without a token in between, each of them enters only
such as are listed before it, except that a block whose brace is missing comes last but one. -/
inductive Routine where
  | typeAfterColon | returnTypeAfterColon | typeArguments | typeParameters | typeReference
  | decorators | propertyKey | objectPattern | arrayPattern | bindingTarget | bindingElement
  | parameter | parameterList | signature
  | functionType | typeQuery | tupleType | mappedType | indexSignature | typeMember | typeMembers
  | primaryType | postfixType | typeOperator | intersectionType | unionType | type | typeOrPredicate
  | functionRest | functionDeclaration | functionExpression | classMember | classMembers | classLike
  | arguments | yielding | arrowHead | template | importExpression | arrayLiteral | objectLiteral
  | creation | chain | primary | leftHandSide | postfixBody | unary | binary | conditional
  | arrowFunction | assignment | expression | spreadable | arrowBody | objectMember
  | moduleSource | importDeclaration | exportDeclaration | typeAlias | interface | enumeration
  | variableDeclaration | variableStatement | ifStatement | forStatement | whileStatement
  | doStatement | switchStatement | tryStatement | withStatement | returnStatement
  | throwStatement | labeledStatement | expressionStatement | namespaceDeclaration
  | statementBody | statement | listedStatement | blockStatements | block | topLevelStatements
deriving DecidableEq, Repr

/-- The routine that leads to a goal. -/
def Goal.routine : Goal → Routine
  | .statement => .statement
  | .statementBody => .statementBody
  | .assignment => .assignment
  | .binary _ => .binary
  | .unary => .unary
  | .leftHandSide => .leftHandSide
  | .creation => .creation
  | .bindingTarget => .bindingTarget
  | .type => .type
  | .typeOperator => .typeOperator

/-- Whether a loop goes on, and with what. -/
inductive Round (α : Type) where
  | again (a : α)
  | done (a : α)

/-- What a step is in the course of a parse. -/
inductive Label : Type → Type 1 where
  | routine {α : Type} (routine : Routine) : Label α
  /-- One round of a loop. -/
  | round {α : Type} : Label (Round α)
  /-- The bound on the rounds of a loop or on the nesting of goals is used up. -/
  | bound {α : Type} : Label α

/-- A step of a parse with a result. -/
inductive Parse : Type → Type 1 where
  | done {α : Type} (a : α) : Parse α
  | andThen {α β : Type} (p : Parse α) (next : α → Parse β) : Parse β
  | observe {α : Type} (look : State → α) : Parse α
  | advance : Parse Unit
  | reread (again : Rereading) : Parse Unit
  | reportHere (fault : Fault) : Parse Unit
  | addNode (start stop : Offset) (shape : Shape) : Parse NodeId
  | reshape (node : NodeId) (shape : Shape) : Parse Unit
  | becomePattern (node : NodeId) : Parse Unit
  | within {α : Type} (change : Context → Context) (p : Parse α) : Parse α
  /-- Runs a construct one level deeper, or gives it up at the limit. -/
  | guarded (p : Parse Child) : Parse Child
  /-- Goes back to the current token after a step. -/
  | lookAhead {α : Type} (p : Parse α) : Parse α
  /-- Keeps the effects of a step that succeeds and meets no error, and no others. -/
  | attempt {α : Type} (p : Parse (Option α)) : Parse (Option α)
  /-- Runs a step and tells what it is. -/
  | labelled {α : Type} (label : Label α) (p : Parse α) : Parse α

export Parse (advance reread reportHere addNode reshape within guarded lookAhead attempt labelled)

namespace Parse

instance : Monad Parse where
  pure := .done
  bind := .andThen

/-- What a step results in, and the state after it. -/
def run {α : Type} : Parse α → State → α × State
  | .done a, s => (a, s)
  | .andThen p next, s =>
    let (a, after) := p.run s
    (next a).run after
  | .observe look, s => (look s, s)
  | .advance, s => ((), s.advance)
  | .reread again, s => ((), s.reread again)
  | .reportHere fault, s => ((), s.reportHere fault)
  | .addNode start stop shape, s => (s.nodes.size, s.addNode start stop shape)
  | .reshape node shape, s => ((), { s with nodes := s.nodes.reshape node shape })
  | .becomePattern node, s => ((), { s with nodes := s.nodes.asPattern node })
  | .within change p, s =>
    let saved := s.context
    let (a, after) := p.run { s with context := change saved }
    (a, { after with context := saved })
  | .guarded p, s =>
    if s.depth < depthLimit then
      let (child, after) := p.run { s with depth := s.depth + 1 }
      (child, { after with depth := after.depth - 1 })
    else (none, s.giveUp)
  | .lookAhead p, s =>
    let (a, after) := p.run s
    (a, after.rewindToken s.scanner s.lastEnd)
  | .attempt p, s =>
    let mark := s.mark
    let (result, after) := p.run s
    if result.isSome ∧ after.errorCount = mark.errorCount then (result, after)
    else (none, after.rewind mark)
  | .labelled _ p, s => p.run s

end Parse

def state : Parse State := .observe id

def kind : Parse Kind := .observe (·.scanner.kind)

def here : Parse Offset := .observe (·.scanner.start.offset)

def tokenEnd : Parse Offset := .observe (·.scanner.stop.offset)

def value : Parse String := .observe (·.scanner.value)

def afterLineBreak : Parse Bool := .observe (·.scanner.lineBreak)

def isAt (k : Kind) : Parse Bool := return (← kind) == k

def atMark (m : Punctuator) : Parse Bool := isAt (.punctuator m)

def atWord (w : Keyword) : Parse Bool := isAt (.keyword w)

/-- The current token can stand for a variable. -/
def atName : Parse Bool := return (← kind).isName

/-- The current token is written like a name. -/
def atAnyWord : Parse Bool := return (← kind).isWord

def atNameText (text : String) : Parse Bool := return (← atName) && (← value) == text

def optional (k : Kind) : Parse Bool := do
  if ← isAt k then
    advance
    return true
  else
    return false

def expect (k : Kind) : Parse Bool := do
  if ← isAt k then
    advance
    return true
  else
    reportHere (.tokenExpected k.spelling)
    return false

def optionalMark (m : Punctuator) : Parse Bool := optional (.punctuator m)

def optionalWord (w : Keyword) : Parse Bool := optional (.keyword w)

def expectMark (m : Punctuator) : Parse Bool := expect (.punctuator m)

def expectWord (w : Keyword) : Parse Bool := expect (.keyword w)

/-- A statement may end here: before a semicolon, a closing brace, the end of the text or a new
line. -/
def atStatementEnd : Parse Bool := do
  let k ← kind
  return k == .punctuator .semicolon || k == .punctuator .closeBrace || k == .endOfFile
    || (← afterLineBreak)

/-- Consumes the end of a statement. -/
def semicolon : Parse Unit := do
  if ← optionalMark .semicolon then return
  unless ← atStatementEnd do
    reportHere (.tokenExpected ";")

def nextIs (k : Kind) : Parse Bool := lookAhead do advance; isAt k

def nextIsMark (m : Punctuator) : Parse Bool := nextIs (.punctuator m)

/-- The next token stands on the same line and passes a test. -/
def nextOnSameLine (test : Parse Bool) : Parse Bool := lookAhead do
  advance
  if ← afterLineBreak then return false else test

def allowIn {α : Type} (p : Parse α) : Parse α := within ({ · with withoutIn := false }) p

def disallowIn {α : Type} (p : Parse α) : Parse α := within ({ · with withoutIn := true }) p

def finish (start : Offset) (shape : Shape) : Parse NodeId := do
  addNode start (max (← state).lastEnd start) shape

def shapeOf (node : Child) : Parse (Option Shape) :=
  .observe fun s => node.bind fun id => s.nodes.shape? id

def identifier : Parse Child := do
  if ← atName then
    let start ← here
    let name ← value
    advance
    finish start (.identifier name)
  else
    reportHere .identifierExpected
    return none

def propertyName : Parse Child := do
  if ← atAnyWord then
    let start ← here
    let name ← value
    advance
    finish start (.propertyName name)
  else
    reportHere .identifierExpected
    return none

def literal (form : Syntax.LiteralForm) : Parse NodeId := do
  let start ← here
  let text ← value
  advance
  finish start (.literal form text)

/-- Repeats a step until it is done, as often as the count allows. -/
def repeatUpTo {α : Type} (step : α → Parse (Round α)) : Nat → α → Parse α
  | 0, a => labelled .bound (return a)
  | n + 1, a => do
    match ← labelled .round (step a) with
    | .again a => repeatUpTo step n a
    | .done a => return a

/-- Repeats a step until it is done. Each round consumes a token, so the bytes that are left bound
the number of rounds. -/
def iterate {α : Type} (start : α) (step : α → Parse (Round α)) : Parse α := do
  let s ← state
  repeatUpTo step (s.size - s.scanner.start.offset + 2) start

/-- The current token is of the given kind or the text is at its end. -/
def atClose (close : Kind) : Parse Bool := return (← isAt close) || (← isAt .endOfFile)

def commaList (close : Kind) (item : Parse Child) : Parse (List NodeId) := do
  let items ← iterate (#[] : Array NodeId) fun items => do
    if ← atClose close then return .done items
    match ← item with
    | none => return .done items
    | some node =>
      if ← optionalMark .comma then return .again (items.push node)
      else return .done (items.push node)
  return items.toList

def separated (separator : Kind) (item : Parse Child) : Parse (List NodeId) := do
  let items ← iterate (#[] : Array NodeId) fun items => do
    match ← item with
    | none => return .done items
    | some node =>
      if ← optional separator then return .again (items.push node)
      else return .done (items.push node)
  return items.toList

/-- How the parts of a construct are parsed. -/
abbrev Parser := Goal → Parse Child

end LoopCapture.Grammar
