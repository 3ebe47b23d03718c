import LoopCapture.Grammar.TypePositions

/-! # Keys, binding patterns and parameters -/

namespace LoopCapture.Grammar
open Syntax (Child NodeId)

variable (parse : Parser)

/-- The key of a property or member, and whether it is computed. -/
def propertyKey : Parse (Child × Bool) := labelled (.routine .propertyKey) do
  match ← kind with
  | .punctuator .openBracket =>
    advance
    let key ← allowIn (parse .assignment)
    discard <| expectMark .closeBracket
    return (key, true)
  | .string => return (← literal .string, false)
  | .number => return (← literal .number, false)
  | .bigInt => return (← literal .bigInt, false)
  | .privateName =>
    let start ← here
    let name ← value
    advance
    return (← finish start (.privateName name), false)
  | k =>
    if k.isWord then return (← propertyName, false)
    else
      reportHere .propertyExpected
      return (none, false)

/-- The value of a shorthand property, with a default after an equals sign if there is one. -/
def shorthandDefault (start : Text.Offset) (name : NodeId) (default : Parse Child) :
    Parse NodeId := do
  if ← optionalMark .eq then
    let right ← default
    finish start (.assignmentPattern name right)
  else return name

def bindingElement : Parse Child := labelled (.routine .bindingElement) do
  let start ← here
  match ← parse .bindingTarget with
  | none => return none
  | some target =>
    if ← optionalMark .eq then
      let right ← allowIn (parse .assignment)
      finish start (.assignmentPattern target right)
    else return target

def bindingProperty : Parse Child := do
  let start ← here
  if ← optionalMark .ellipsis then
    let target ← parse .bindingTarget
    finish start (.restElement target)
  else if ← atName <&&> (return !(← nextIsMark .colon)) then
    let name ← value
    let stop ← tokenEnd
    advance
    let key ← addNode start stop (.propertyName name)
    let target ← addNode start stop (.identifier name)
    let target ← shorthandDefault start target (allowIn (parse .assignment))
    finish start (.property ⟨key, target, .init, false, true, false⟩)
  else
    match ← propertyKey parse with
    | (none, _) => return none
    | (some key, computed) =>
      discard <| expectMark .colon
      let target ← bindingElement parse
      finish start (.property ⟨key, target, .init, computed, false, false⟩)

def objectPattern : Parse Child := labelled (.routine .objectPattern) do
  let start ← here
  advance
  let properties ← commaList (.punctuator .closeBrace) (bindingProperty parse)
  discard <| expectMark .closeBrace
  finish start (.objectPattern properties)

/-- Elements up to a closing bracket, with holes where a comma follows no element. An element must
be followed by a comma or the bracket. -/
def elementList (element : Parse Child) : Parse (List Child) := do
  let elements ← iterate (#[] : Array Child) fun elements => do
    if ← atClose (.punctuator .closeBracket) then return .done elements
    if ← optionalMark .comma then return .again (elements.push none)
    match ← element with
    | none => return .done elements
    | some node =>
      let elements := elements.push (some node)
      if ← atMark .closeBracket <||> expectMark .comma then return .again elements
      else return .done elements
  return elements.toList

def bindingArrayElement : Parse Child := do
  let start ← here
  if ← optionalMark .ellipsis then
    let target ← parse .bindingTarget
    finish start (.restElement target)
  else bindingElement parse

def arrayPattern : Parse Child := labelled (.routine .arrayPattern) do
  let start ← here
  advance
  let elements ← elementList (bindingArrayElement parse)
  discard <| expectMark .closeBracket
  finish start (.arrayPattern elements)

/-- The target of a declaration: a name or a pattern. -/
def bindingTarget : Parse Child := do
  match ← kind with
  | .punctuator .openBrace => objectPattern parse
  | .punctuator .openBracket => arrayPattern parse
  | _ => identifier

/-- Decorators are parsed and left out of the tree. -/
def decorators : Parse Unit := labelled (.routine .decorators) <|
  iterate () fun _ => do
    if ← optionalMark .atSign then
      discard <| parse .leftHandSide
      return .again ()
    else return .done ()

/-- The words that make a constructor's parameter a property, when a target follows them. -/
def parameterModifiers : Parse Unit :=
  iterate () fun _ => do
    let isModifier ←
      match ← kind with
      | .keyword .public_ | .keyword .private_ | .keyword .protected_ | .keyword .readonly_
      | .keyword .override_ =>
        nextOnSameLine (atName <||> atMark .openBrace <||> atMark .openBracket)
      | _ => pure false
    if isModifier then
      advance
      return .again ()
    else return .done ()

/-- What a parameter binds. `this` as a parameter only carries a type. -/
def parameterTarget : Parse Child := do
  let start ← here
  match ← kind with
  | .keyword .this_ =>
    advance
    finish start (.propertyName "this")
  | .punctuator .ellipsis =>
    advance
    let target ← parse .bindingTarget
    finish start (.restElement target)
  | _ => parse .bindingTarget

def parameter : Parse Child := labelled (.routine .parameter) do
  let start ← here
  decorators parse
  parameterModifiers
  let targetStart ← here
  match ← parameterTarget parse with
  | none => return none
  | some target =>
    let isOptional ← optionalMark .question
    let type ← typeAfterColon parse
    let pattern ← shorthandDefault targetStart target (parse .assignment)
    finish start (.parameter pattern isOptional type)

def parameterList : Parse (List NodeId) := labelled (.routine .parameterList) do
  if ← expectMark .openParen then
    let params ← allowIn (commaList (.punctuator .closeParen) (parameter parse))
    discard <| expectMark .closeParen
    return params
  else return []

/-- The rest of a signature after its key. -/
def signature (key : Child) : Parse Syntax.Signature := labelled (.routine .signature) do
  let typeParameters ← typeParameters parse
  let params ← parameterList parse
  let returnType ← returnTypeAfterColon parse
  return { key, typeParameters, params, returnType }

end LoopCapture.Grammar
