import LoopCapture.Grammar.Pattern

/-! # Types -/

namespace LoopCapture.Grammar
open Syntax (Child NodeId)
open Token (Kind)

variable (parse : Parser)

def allowConditional (c : Context) : Context := { c with withoutConditional := false }

def disallowConditional (c : Context) : Context := { c with withoutConditional := true }

/-- A function type or a constructor type, if the tokens ahead form one without error. -/
def functionType : Parse Child := labelled (.routine .functionType) do
  let isConstructor ← atWord .new_ <||> (atWord .abstract_ <&&> nextIs (.keyword .new_))
  if isConstructor || (← atMark .openParen) || (← atMark .less) then
    attempt do
      let start ← here
      discard <| optionalWord .abstract_
      discard <| optionalWord .new_
      let typeParameters ← typeParameters parse
      if ← atMark .openParen then
        let params ← parameterList parse
        if ← optionalMark .arrow then
          let returnType ← typeOrPredicate parse
          finish start (.functionType { key := none, typeParameters, params, returnType })
        else return none
      else return none
  else return none

/-- Types with a separator between them, and one before the first that means nothing. -/
def typeChain (separator : Kind) (join : List NodeId → Syntax.Shape) (member : Parse Child) :
    Parse Child := do
  let start ← here
  discard <| optional separator
  match ← member with
  | none => return none
  | some first =>
    if ← optional separator then
      let rest ← separated separator member
      finish start (join (first :: rest))
    else return first

/-- A type without a condition: a union of intersections. -/
def unionType : Parse Child := labelled (.routine .unionType) <|
  typeChain (.punctuator .bar) .unionType <| labelled (.routine .intersectionType) <|
    typeChain (.punctuator .amp) .intersectionType (parse .typeOperator)

/-- A type, with its condition if it has one. -/
def typeBody : Parse Child := do
  match ← functionType parse with
  | some node => return node
  | none =>
    let start ← here
    match ← unionType parse with
    | none => return none
    | some check =>
      if (← state).context.withoutConditional || !(← atWord .extends_) || (← afterLineBreak) then
        return check
      else
        advance
        let bound ← within disallowConditional (parse .type)
        discard <| expectMark .question
        let whenTrue ← within allowConditional (parse .type)
        discard <| expectMark .colon
        let whenFalse ← within allowConditional (parse .type)
        finish start (.conditionalType check bound whenTrue whenFalse)

/-- The bound of an inferred type, unless it turns out to be the condition around it. -/
def inferBound : Parse Child := do
  if ← atWord .extends_ then
    let bound ← attempt do
      advance
      let bound ← within disallowConditional (parse .type)
      if ← atMark .question then return none else return some bound
    return bound.getD none
  else return none

def typeWords : List String :=
  [ "any", "unknown", "number", "string", "boolean", "bigint", "symbol", "object", "never",
    "undefined", "void", "null", "this", "intrinsic" ]

/-- `typeof` a name; its type arguments are left out of the tree. -/
def typeQuery : Parse Child := labelled (.routine .typeQuery) do
  let start ← here
  advance
  let name ← entityName
  if (← atMark .less) && !(← afterLineBreak) then
    discard <| typeArguments parse
  finish start (.typeQuery name)

/-- An element of a tuple type; its label is left out of the tree. -/
def tupleElement : Parse Child := do
  discard <| optionalMark .ellipsis
  let labelled ← atAnyWord <&&> lookAhead do
    advance
    discard <| optionalMark .question
    atMark .colon
  if labelled then
    advance
    discard <| optionalMark .question
    advance
    discard <| optionalMark .ellipsis
  match ← parse .type with
  | none => return none
  | some element =>
    discard <| optionalMark .question
    return element

def tupleType : Parse Child := labelled (.routine .tupleType) do
  let start ← here
  advance
  let elements ← commaList (.punctuator .closeBracket) (tupleElement parse)
  discard <| expectMark .closeBracket
  finish start (.tupleType elements)

/-- A sign before or after a modifier of a mapped type. -/
def optionalSign : Parse Unit := do
  unless ← optionalMark .plus do
    discard <| optionalMark .minus

def atMappedType : Parse Bool := lookAhead do
  advance
  if ← atMark .plus <||> atMark .minus then advance
  if ← atWord .readonly_ then advance
  if ← atMark .openBracket then
    advance
    if ← atName then
      advance
      atWord .in_
    else return false
  else return false

def mappedType : Parse Child := labelled (.routine .mappedType) do
  let start ← here
  discard <| expectMark .openBrace
  optionalSign
  discard <| optionalWord .readonly_
  discard <| expectMark .openBracket
  let parameterStart ← here
  let name ← identifier
  discard <| expectWord .in_
  let constraint ← parse .type
  let renamed ← if ← optionalWord .as_ then parse .type else pure none
  let parameter ← finish parameterStart (.typeParameter name constraint renamed)
  discard <| expectMark .closeBracket
  optionalSign
  discard <| optionalMark .question
  let type ← typeAfterColon parse
  discard <| optionalMark .semicolon
  discard <| expectMark .closeBrace
  finish start (.mappedType parameter type)

def atIndexSignature : Parse Bool := atMark .openBracket <&&> lookAhead do
  advance
  if ← atAnyWord then
    advance
    atMark .colon
  else return false

def indexSignature (start : Text.Offset) : Parse Child := labelled (.routine .indexSignature) do
  discard <| expectMark .openBracket
  let parameterStart ← here
  let name ← propertyName
  let keyType ← typeAfterColon parse
  let parameter ← finish parameterStart (.parameter name false keyType)
  discard <| expectMark .closeBracket
  let type ← typeAfterColon parse
  finish start (.indexSignature [parameter] type)

/-- The word `readonly` ahead is a modifier and not the key. -/
def atReadonlyModifier : Parse Bool := atWord .readonly_ <&&> lookAhead do
  advance
  match ← kind with
  | .punctuator .colon | .punctuator .question | .punctuator .openParen
  | .punctuator .semicolon | .punctuator .comma | .punctuator .closeBrace => return false
  | _ => return true

def atAccessorModifier : Parse Bool := (atWord .get_ <||> atWord .set_) <&&> lookAhead do
  advance
  match ← kind with
  | .string | .number | .punctuator .openBracket => return true
  | k => return k.isWord

def atConstructSignature : Parse Bool := atWord .new_ <&&> lookAhead do
  advance
  atMark .openParen <||> atMark .less

def atParameters : Parse Bool := atMark .openParen <||> atMark .less

def typeMember : Parse Child := labelled (.routine .typeMember) do
  let start ← here
  let isConstruct ← atConstructSignature
  if isConstruct then advance
  if isConstruct || (← atParameters) then
    let s ← signature parse none
    finish start (.callSignature s)
  else
    if ← atReadonlyModifier then advance
    if ← atIndexSignature then indexSignature parse start
    else
      if ← atAccessorModifier then advance
      match ← propertyKey parse with
      | (none, _) => return none
      | (some key, computed) =>
        let isOptional ← optionalMark .question
        if ← atParameters then
          let s ← signature parse key
          finish start (.methodSignature s)
        else
          let type ← typeAfterColon parse
          finish start (.propertySignature key computed isOptional type)

def typeMembers : Parse (List NodeId) := labelled (.routine .typeMembers) do
  if ← expectMark .openBrace then
    let members ← iterate (#[] : Array NodeId) fun members => do
      if ← atClose (.punctuator .closeBrace) then return .done members
      let start ← here
      let members := match ← typeMember parse with
        | some member => members.push member
        | none => members
      unless ← optionalMark .semicolon do
        discard <| optionalMark .comma
      if (← here) == start then advance
      return .again members
    discard <| expectMark .closeBrace
    return members.toList
  else return []

def templateParts (substitution : Parse Child) : Parse (List String × List NodeId) := do
  let head ← value
  advance
  let parts ← iterate ((#[head], #[]) : Array String × Array NodeId) fun (quasis, nodes) => do
    let nodes := match ← substitution with
      | some node => nodes.push node
      | none => nodes
    if ← atMark .closeBrace then
      reread .template
      let quasis := quasis.push (← value)
      let isTail ← isAt (.template .tail)
      advance
      return if isTail then .done (quasis, nodes) else .again (quasis, nodes)
    else
      reportHere (.tokenExpected "\x7d")
      return .done (quasis, nodes)
  return (parts.1.toList, parts.2.toList)

def wholeTemplate : Parse NodeId := do
  let start ← here
  let text ← value
  advance
  finish start (.template [text] [])

def literalType (start : Text.Offset) (literal : Parse NodeId) : Parse Child := do
  let node ← literal
  finish start (.literalType node)

/-- A type imported from another module; its parts are left out of the tree. -/
def importedType : Parse Child := do
  let start ← here
  advance
  discard <| expectMark .openParen
  discard <| optional .string
  discard <| expectMark .closeParen
  iterate () fun _ => do
    if ← optionalMark .dot then
      discard propertyName
      return .again ()
    else return .done ()
  if ← atMark .less then
    discard <| typeArguments parse
  finish start (.typeKeyword "import")

def namedType : Parse Child := do
  let start ← here
  if ← atAnyWord then
    let text ← value
    if typeWords.contains text && !(← nextIsMark .dot) then
      advance
      finish start (.typeKeyword text)
    else typeReference parse
  else
    reportHere .typeExpected
    return none

/-- A type without operators before or after it. -/
def primaryType : Parse Child := labelled (.routine .primaryType) do
  let start ← here
  match ← kind with
  | .punctuator .openParen =>
    advance
    let inner ← within allowConditional (parse .type)
    discard <| expectMark .closeParen
    return inner
  | .punctuator .openBrace =>
    if ← atMappedType then mappedType parse
    else
      let members ← typeMembers parse
      finish start (.typeLiteral members)
  | .punctuator .openBracket => tupleType parse
  | .keyword .typeof_ => typeQuery parse
  | .string => literalType start (literal .string)
  | .number => literalType start (literal .number)
  | .bigInt => literalType start (literal .bigInt)
  | .keyword .true_ | .keyword .false_ => literalType start (literal .boolean)
  | .template .whole => literalType start wholeTemplate
  | .template .head =>
    literalType start do
      let (quasis, nodes) ← templateParts (parse .type)
      finish start (.template quasis nodes)
  | .punctuator .minus =>
    if ← nextIs .number then
      literalType start do
        advance
        let digits ← value
        advance
        finish start (.literal .number ("-" ++ digits))
    else namedType parse
  | .keyword .import_ => importedType parse
  | _ => namedType parse

/-- A type with array brackets and indices after it. -/
def postfixType : Parse Child := labelled (.routine .postfixType) do
  let start ← here
  match ← primaryType parse with
  | none => return none
  | some first =>
    iterate (some first : Child) fun type => do
      if (← atMark .openBracket) && !(← afterLineBreak) then
        advance
        if ← optionalMark .closeBracket then
          return .again (← finish start (.arrayType type))
        else
          let index ← parse .type
          discard <| expectMark .closeBracket
          return .again (← finish start (.indexedAccessType type index))
      else return .done type

/-- A type with the operators before it. `unique` leaves no node behind. -/
def typeOperator : Parse Child := do
  let start ← here
  let k ← kind
  if k == .keyword .keyof_ || k == .keyword .readonly_ then
    advance
    let operand ← parse .typeOperator
    finish start (.typeOperator k operand)
  else if ← atNameText "unique" <&&> nextOnSameLine atName then
    advance
    parse .typeOperator
  else if ← atNameText "infer" <&&> nextOnSameLine atName then
    advance
    let parameterStart ← here
    let name ← identifier
    let bound ← inferBound parse
    let parameter ← finish parameterStart (.typeParameter name bound none)
    finish start (.inferType parameter)
  else postfixType parse

end LoopCapture.Grammar
