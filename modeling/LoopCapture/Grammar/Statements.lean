import LoopCapture.Grammar.Modules

/-! # Statements -/

namespace LoopCapture.Grammar
open Syntax (Child NodeId DeclarationWord)
open Token (Kind)

variable (parse : Parser)

def parenthesized : Parse Child := do
  discard <| expectMark .openParen
  let node ← allowIn (expression parse)
  discard <| expectMark .closeParen
  return node

def atLetDeclaration : Parse Bool := lookAhead do
  advance
  atName <||> atMark .openBracket <||> atMark .openBrace

def atUsingDeclaration : Parse Bool :=
  nextOnSameLine (atName <&&> (return !(← atWord .of_)))

/-- The word `await` ahead opens a declaration with `await using`. -/
def atAwaitUsingDeclaration : Parse Bool := nextOnSameLine do
  if ← atWord .using_ then
    advance
    return !(← afterLineBreak) && (← atName)
  else return false

/-- A variable with its type and its initial value. -/
def declarator : Parse Child := do
  let start ← here
  match ← parse .bindingTarget with
  | none => return none
  | some target =>
    discard <| optionalMark .bang
    let type ← typeAfterColon parse
    let init ← if ← optionalMark .eq then parse .assignment else pure none
    finish start (.variableDeclarator target type init)

/-- A variable declaration without the end of the statement. -/
def variableDeclaration :
    Parse (DeclarationWord × List NodeId) := labelled (.routine .variableDeclaration) do
  let word ←
    match ← kind with
    | .keyword .let_ => pure DeclarationWord.letWord
    | .keyword .const_ => pure .constWord
    | .keyword .using_ => pure .usingWord
    | .keyword .await_ =>
      advance
      pure .awaitUsing
    | _ => pure .varWord
  advance
  let declarators ← separated (.punctuator .comma) (declarator parse)
  return (word, declarators)

def variableStatement : Parse NodeId := labelled (.routine .variableStatement) do
  let start ← here
  let (word, declarators) ← allowIn (variableDeclaration parse)
  semicolon
  finish start (.variableDeclaration word declarators)

def ifStatement : Parse NodeId := labelled (.routine .ifStatement) do
  let start ← here
  advance
  let test ← parenthesized parse
  let consequent ← parse .statement
  let alternate ← if ← optionalWord .else_ then parse .statement else pure none
  finish start (.ifElse test consequent alternate)

def atForDeclaration : Parse Bool := do
  match ← kind with
  | .keyword .var_ | .keyword .const_ => return true
  | .keyword .let_ => atLetDeclaration
  | .keyword .using_ => atUsingDeclaration
  | .keyword .await_ => atAwaitUsingDeclaration
  | _ => return false

def forInit : Parse Child := do
  if ← atMark .semicolon then return none
  else if ← atForDeclaration then
    let start ← here
    let (word, declarators) ← disallowIn (variableDeclaration parse)
    finish start (.variableDeclaration word declarators)
  else disallowIn (expression parse)

def forEachRest (start : Text.Offset) (left : Child) (isAwait : Bool) : Parse NodeId := do
  let overKeys ← atWord .in_
  advance
  match ← shapeOf left with
  | some (.variableDeclaration ..) => pure ()
  | _ => becomePattern left
  let right ← if overKeys then allowIn (expression parse) else allowIn (parse .assignment)
  discard <| expectMark .closeParen
  let body ← parse .statement
  finish start (if overKeys then .forIn left right body isAwait else .forOf left right body isAwait)

def forPart (close : Kind) : Parse Child := do
  if ← isAt close then return none else allowIn (expression parse)

def forStatement : Parse NodeId := labelled (.routine .forStatement) do
  let start ← here
  advance
  let isAwait ← optionalWord .await_
  discard <| expectMark .openParen
  let init ← forInit parse
  if ← atWord .in_ <||> atWord .of_ then forEachRest parse start init isAwait
  else
    discard <| expectMark .semicolon
    let test ← forPart parse (.punctuator .semicolon)
    discard <| expectMark .semicolon
    let update ← forPart parse (.punctuator .closeParen)
    discard <| expectMark .closeParen
    let body ← parse .statement
    finish start (.forLoop init test update body)

def whileStatement : Parse NodeId := labelled (.routine .whileStatement) do
  let start ← here
  advance
  let test ← parenthesized parse
  let body ← parse .statement
  finish start (.whileLoop test body)

/-- A `do` statement. The semicolon after it is always optional. -/
def doStatement : Parse NodeId := labelled (.routine .doStatement) do
  let start ← here
  advance
  let body ← parse .statement
  discard <| expectWord .while_
  let test ← parenthesized parse
  discard <| optionalMark .semicolon
  finish start (.doWhile body test)

/-- What opens a case of a `switch`: a word and its test, or the word of the default case. -/
def caseTest : Parse (Option Child) := do
  if ← optionalWord .case_ then some <$> allowIn (expression parse)
  else if ← optionalWord .default_ then return some none
  else return none

/-- A case of a `switch`, up to the next one. A token that opens none is skipped. -/
def switchCase (cases : Array NodeId) : Parse (Array NodeId) := do
  let start ← here
  match ← caseTest parse with
  | none =>
    reportHere (.tokenExpected "case")
    advance
    return cases
  | some test =>
    discard <| expectMark .colon
    let statements ← iterate (#[] : Array NodeId) fun statements => do
      if ← atWord .case_ <||> atWord .default_ <||> atClose (.punctuator .closeBrace) then
        return .done statements
      return .again (← listedStatement parse statements)
    return cases.push (← finish start (.switchCase test statements.toList))

def switchStatement : Parse NodeId := labelled (.routine .switchStatement) do
  let start ← here
  advance
  let discriminant ← parenthesized parse
  discard <| expectMark .openBrace
  let cases ← iterate (#[] : Array NodeId) fun cases => do
    if ← atClose (.punctuator .closeBrace) then return .done cases
    return .again (← switchCase parse cases)
  discard <| expectMark .closeBrace
  finish start (.switch discriminant cases.toList)

def catchClause : Parse Child := do
  if ← atWord .catch_ then
    let start ← here
    advance
    let (param, type) ←
      if ← optionalMark .openParen then
        let param ← parse .bindingTarget
        let type ← typeAfterColon parse
        discard <| expectMark .closeParen
        pure (param, type)
      else pure (none, none)
    let body ← block parse
    finish start (.catchClause param type body)
  else return none

/-- A `try` statement. It needs a handler or a finalizer. -/
def tryStatement : Parse NodeId := labelled (.routine .tryStatement) do
  let start ← here
  advance
  let body ← block parse
  let handler ← catchClause parse
  let finalizer ← if ← optionalWord .finally_ then block parse else pure none
  if handler.isNone && finalizer.isNone then
    reportHere (.tokenExpected "catch")
  finish start (.tryCatch body handler finalizer)

def withStatement : Parse NodeId := labelled (.routine .withStatement) do
  let start ← here
  advance
  let object ← parenthesized parse
  let body ← parse .statement
  finish start (.withObject object body)

def returnStatement : Parse NodeId := labelled (.routine .returnStatement) do
  let start ← here
  advance
  let argument ← if ← atStatementEnd then pure none else allowIn (expression parse)
  semicolon
  finish start (.returning argument)

def throwStatement : Parse NodeId := labelled (.routine .throwStatement) do
  let start ← here
  advance
  let argument ← allowIn (expression parse)
  semicolon
  finish start (.throwing argument)

/-- The label after `break` or `continue`, on the same line, and the end of the statement. -/
def jumpLabel : Parse Child := do
  advance
  let label ← if (← atName) && !(← afterLineBreak) then propertyName else pure none
  semicolon
  return label

def labeledStatement : Parse NodeId := labelled (.routine .labeledStatement) do
  let start ← here
  let label ← propertyName
  discard <| expectMark .colon
  let body ← parse .statement
  finish start (.labeled label body)

def expressionStatement : Parse Child := labelled (.routine .expressionStatement) do
  let start ← here
  match ← allowIn (expression parse) with
  | none =>
    reportHere .statementExpected
    return none
  | some node =>
    semicolon
    finish start (.expressionStatement node)

/-- The words that may open a namespace. -/
def atNamespaceWord : Parse Bool :=
  atNameText "namespace" <||> atNameText "module" <||> atNameText "global"

def skipDottedName : Parse Unit :=
  iterate () fun _ => do
    advance
    if ← atMark .dot then
      advance
      return .again ()
    else return .done ()

/-- The word ahead opens a namespace: a name or string and a brace follow, or a brace alone. -/
def atNamespace : Parse Bool := atNamespaceWord <&&> nextOnSameLine do
  if ← atMark .openBrace then return true
  else if ← atName <||> isAt .string then
    skipDottedName
    atMark .openBrace
  else return false

/-- A namespace. Its name binds nothing and its body is a block. -/
def namespaceDeclaration : Parse Child := labelled (.routine .namespaceDeclaration) do
  advance
  iterate () fun _ => do
    if ← atClose (.punctuator .openBrace) then return .done ()
    advance
    return .again ()
  block parse

/-- The words that may follow `declare`. -/
def atDeclarationStart : Parse Bool := do
  match ← kind with
  | .keyword .var_ | .keyword .let_ | .keyword .const_ | .keyword .function_ | .keyword .class_
  | .keyword .abstract_ | .keyword .enum_ | .keyword .interface_ | .keyword .type_
  | .keyword .async_ => return true
  | _ => atNamespaceWord

def plainStatement : Parse Child := do
  if ← atNamespace then namespaceDeclaration parse
  else if ← atName <&&> nextIsMark .colon then labeledStatement parse
  else expressionStatement parse

/-- A statement that begins with a word which opens it only if a condition holds. -/
def statementIf (condition : Parse Bool) (statement : Parse Child) : Parse Child := do
  if ← condition then statement else plainStatement parse

def statementBody : Parse Child := do
  let start ← here
  match ← kind with
  | .punctuator .openBrace => block parse
  | .punctuator .semicolon =>
    advance
    finish start .empty
  | .punctuator .atSign =>
    decorators parse
    parse .statementBody
  | .keyword .var_ => variableStatement parse
  | .keyword .const_ =>
    if ← nextIs (.keyword .enum_) then
      advance
      enumeration parse start true
    else variableStatement parse
  | .keyword .let_ => statementIf parse atLetDeclaration (variableStatement parse)
  | .keyword .using_ => statementIf parse atUsingDeclaration (variableStatement parse)
  | .keyword .await_ => statementIf parse atAwaitUsingDeclaration (variableStatement parse)
  | .keyword .function_ => functionDeclaration parse start false false
  | .keyword .async_ =>
    statementIf parse (nextOnSameLine (atWord .function_)) do
      advance
      functionDeclaration parse start true false
  | .keyword .class_ => classLike parse start true false
  | .keyword .abstract_ =>
    statementIf parse (nextOnSameLine (atWord .class_)) do
      advance
      classLike parse start true false
  | .keyword .if_ => ifStatement parse
  | .keyword .for_ => forStatement parse
  | .keyword .while_ => whileStatement parse
  | .keyword .do_ => doStatement parse
  | .keyword .return_ => returnStatement parse
  | .keyword .throw_ => throwStatement parse
  | .keyword .break_ => finish start (.breaking (← jumpLabel))
  | .keyword .continue_ => finish start (.continuing (← jumpLabel))
  | .keyword .switch_ => switchStatement parse
  | .keyword .try_ => tryStatement parse
  | .keyword .debugger_ =>
    advance
    semicolon
    finish start .debugger
  | .keyword .with_ => withStatement parse
  | .keyword .import_ =>
    statementIf parse (lookAhead do advance; return !(← (atMark .openParen <||> atMark .dot)))
      (importDeclaration parse)
  | .keyword .export_ => exportDeclaration parse
  | .keyword .type_ => statementIf parse (nextOnSameLine atName) (typeAlias parse)
  | .keyword .interface_ => statementIf parse (nextOnSameLine atName) (interface parse)
  | .keyword .enum_ => statementIf parse (nextOnSameLine atName) (enumeration parse start false)
  | .keyword .declare_ =>
    statementIf parse (nextOnSameLine atDeclarationStart) do
      advance
      parse .statementBody
  | _ => plainStatement parse

end LoopCapture.Grammar
