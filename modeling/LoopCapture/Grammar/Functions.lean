import LoopCapture.Grammar.Types

/-! # Blocks, functions and classes -/

namespace LoopCapture.Grammar
open Syntax (Child NodeId FunctionForm)

variable (parse : Parser)

/-- A statement of a list. A token at which no statement begins is skipped, so every round of the
list consumes something. -/
def listedStatement (statements : Array NodeId) :
    Parse (Array NodeId) := labelled (.routine .listedStatement) do
  let start ← here
  let statement ← parse .statement
  if (← here) == start && !(← isAt .endOfFile) then advance
  return match statement with
    | some node => statements.push node
    | none => statements

def blockStatements : Parse (List NodeId) := labelled (.routine .blockStatements) do
  let statements ← iterate (#[] : Array NodeId) fun statements => do
    if ← atClose (.punctuator .closeBrace) then return .done statements
    return .again (← listedStatement parse statements)
  return statements.toList

def block : Parse Child := labelled (.routine .block) do
  let start ← here
  discard <| expectMark .openBrace
  let statements ← allowIn (blockStatements parse)
  discard <| expectMark .closeBrace
  finish start (.block statements)

def functionRest (form : FunctionForm) (isGenerator isAsync : Bool) (name : Child) :
    Parse Syntax.Function := labelled (.routine .functionRest) <|
  within (fun _ => { inFunction := true, isAsync, isGenerator }) do
    let s ← signature parse none
    let body ← if ← atMark .openBrace then block parse else pure none
    return { form, isGenerator, isAsync, name, typeParameters := s.typeParameters,
             params := s.params, returnType := s.returnType, body }

/-- A function declaration after `async`. Without a body it is a signature and ends like a
statement. -/
def functionDeclaration (start : Text.Offset) (isAsync nameOptional : Bool) :
    Parse Child := labelled (.routine .functionDeclaration) do
  discard <| expectWord .function_
  let isGenerator ← optionalMark .star
  let name ←
    if ← atName then identifier
    else
      unless nameOptional do
        reportHere .identifierExpected
      pure none
  let f ← functionRest parse .declaration isGenerator isAsync name
  let node ← finish start (.function f)
  if f.body.isNone then semicolon
  return node

def functionExpression (start : Text.Offset) (isAsync : Bool) :
    Parse Child := labelled (.routine .functionExpression) do
  discard <| expectWord .function_
  let isGenerator ← optionalMark .star
  let name ← if ← atName then identifier else pure none
  let f ← functionRest parse .expression isGenerator isAsync name
  if f.body.isNone then
    reportHere (.tokenExpected "\x7b")
  finish start (.function f)

/-- A member's name may begin with the next token, on the same line, so that the current word is a
modifier and not the name. A brace does not begin a name. -/
def modifiesMember : Parse Bool := nextOnSameLine do
  match ← kind with
  | .privateName | .string | .number | .punctuator .openBracket | .punctuator .star => return true
  | k => return k.isWord

/-- Consumes the modifiers of a member; the result tells whether `static` is among them. A block of
static statements is left for the caller. -/
def memberModifiers : Parse Bool :=
  iterate false fun isStatic => do
    let k ← kind
    let isModifier ←
      match k with
      | .keyword .static_ | .keyword .public_ | .keyword .private_ | .keyword .protected_
      | .keyword .readonly_ | .keyword .abstract_ | .keyword .override_ | .keyword .declare_
      | .keyword .accessor_ => modifiesMember
      | _ => pure false
    if isModifier then
      advance
      return .again (isStatic || k == .keyword .static_)
    else return .done isStatic

def staticBlock (start : Text.Offset) : Parse Child := do
  advance
  discard <| expectMark .openBrace
  let statements ← within (fun _ => { inFunction := true }) (blockStatements parse)
  discard <| expectMark .closeBrace
  finish start (.staticBlock statements)

def methodForm (form : FunctionForm) (computed isStatic : Bool) (key : Child) :
    Parse FunctionForm := do
  let name := (← shapeOf key).bind Syntax.Shape.nameText?
  return if form = .method && !computed && !isStatic && name == some "constructor" then
    .constructor
  else form

/-- A method from its parameters on. Without a body it is a signature and ends like a statement. -/
def methodRest (start : Text.Offset) (form : FunctionForm) (isGenerator isAsync isStatic : Bool)
    (key : NodeId) (computed : Bool) : Parse Child := do
  let form ← methodForm form computed isStatic key
  let valueStart ← here
  let f ← functionRest parse form isGenerator isAsync none
  let method ← finish valueStart (.function f)
  if f.body.isNone then semicolon
  finish start (.methodDefinition key computed isStatic method)

/-- A field from its type on. Its initializer runs as in the body of a method. -/
def fieldRest (start : Text.Offset) (isStatic : Bool) (key : NodeId) (computed : Bool) :
    Parse Child := do
  let type ← typeAfterColon parse
  let initializer ←
    if ← optionalMark .eq then
      within (fun _ => { inFunction := true }) (parse .assignment)
    else pure none
  semicolon
  finish start (.propertyDefinition key computed isStatic type initializer)

def memberRest (start : Text.Offset) (isStatic : Bool) : Parse Child := do
  let isAsync ← atWord .async_ <&&> modifiesMember
  if isAsync then advance
  let isGenerator ← optionalMark .star
  let accessor ←
    if isAsync || isGenerator then pure none
    else if ← atWord .get_ <&&> modifiesMember then pure (some FunctionForm.getter)
    else if ← atWord .set_ <&&> modifiesMember then pure (some FunctionForm.setter)
    else pure none
  if accessor.isSome then advance
  match ← propertyKey parse with
  | (none, _) => return none
  | (some key, computed) =>
    unless ← optionalMark .question do
      discard <| optionalMark .bang
    if ← atParameters then
      methodRest parse start (accessor.getD .method) isGenerator isAsync isStatic key computed
    else fieldRest parse start isStatic key computed

def classMember : Parse Child := labelled (.routine .classMember) do
  let start ← here
  decorators parse
  let isStatic ← memberModifiers
  if ← atWord .static_ <&&> nextIsMark .openBrace then staticBlock parse start
  else if ← atIndexSignature then indexSignature parse start
  else memberRest parse start isStatic

def classMembers : Parse (List NodeId) := labelled (.routine .classMembers) do
  if ← expectMark .openBrace then
    let members ← iterate (#[] : Array NodeId) fun members => do
      if ← atClose (.punctuator .closeBrace) then return .done members
      if ← optionalMark .semicolon then return .again members
      let start ← here
      let members := match ← classMember parse with
        | some member => members.push member
        | none => members
      if (← here) == start then advance
      return .again members
    discard <| expectMark .closeBrace
    return members.toList
  else return []

def supertypes : Parse (List NodeId) := separated (.punctuator .comma) (typeReference parse)

/-- What a class extends, and the type arguments that follow it. -/
def classHeritage : Parse (Child × List NodeId) := do
  if ← optionalWord .extends_ then
    let superClass ← parse .leftHandSide
    let arguments ← if ← atMark .less then typeArguments parse else pure []
    return (superClass, arguments)
  else return (none, [])

def classLike (start : Text.Offset) (isDeclaration nameOptional : Bool) :
    Parse Child := labelled (.routine .classLike) do
  discard <| expectWord .class_
  let name ←
    if (← atName) && !(← atWord .implements_) then identifier
    else
      if isDeclaration && !nameOptional then
        reportHere .identifierExpected
      pure none
  let typeParameters ← typeParameters parse
  let (superClass, arguments) ← classHeritage parse
  let implemented ← if ← optionalWord .implements_ then supertypes parse else pure []
  let members ← allowIn (classMembers parse)
  finish start (.classLike
    { isDeclaration, name, typeParameters, superClass, implements := arguments ++ implemented,
      members })

end LoopCapture.Grammar
