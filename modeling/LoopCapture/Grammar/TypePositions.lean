import LoopCapture.Grammar.Parse

/-! # Types in other constructs

The places where types stand in other constructs. A type itself is a goal.
-/

namespace LoopCapture.Grammar
open Syntax (Child NodeId)

variable (parse : Parser)

def typeAfterColon : Parse Child := labelled (.routine .typeAfterColon) do
  if ← optionalMark .colon then parse .type else return none

/-- The subject of a type predicate: a name or `this`. -/
def atPredicateSubject : Parse Bool := atName <||> atWord .this_

/-- A type, or what a function tells of its argument: `x is T`, `asserts x` or `asserts x is T`. -/
def typeOrPredicate : Parse Child := labelled (.routine .typeOrPredicate) do
  let start ← here
  if ← atNameText "asserts" <&&> nextOnSameLine atPredicateSubject then
    advance
    let parameter ← propertyName
    let type ←
      if (← atNameText "is") && !(← afterLineBreak) then
        advance
        parse .type
      else pure none
    finish start (.typePredicate parameter type)
  else if ← atPredicateSubject <&&> nextOnSameLine (atNameText "is") then
    let parameter ← propertyName
    advance
    let type ← parse .type
    finish start (.typePredicate parameter type)
  else parse .type

/-- The type or predicate after the colon that follows a parameter list, if there is a colon. -/
def returnTypeAfterColon : Parse Child := labelled (.routine .returnTypeAfterColon) do
  if ← optionalMark .colon then typeOrPredicate parse else return none

def typeArguments : Parse (List NodeId) := labelled (.routine .typeArguments) do
  if ← expectMark .less then
    let arguments ← commaList (.punctuator .greater) (parse .type)
    discard <| expectMark .greater
    return arguments
  else return []

/-- The modifiers of a type parameter, when a name follows them. -/
def variance : Parse Unit :=
  iterate () fun _ => do
    if ← (atWord .const_ <||> atWord .in_ <||> atNameText "out")
        <&&> lookAhead (do advance; atName) then
      advance
      return .again ()
    else return .done ()

def typeParameter : Parse Child := do
  let start ← here
  variance
  match ← identifier with
  | none => return none
  | some name =>
    let constraint ← if ← optionalWord .extends_ then parse .type else pure none
    let default ← if ← optionalMark .eq then parse .type else pure none
    finish start (.typeParameter name constraint default)

def typeParameters : Parse (List NodeId) := labelled (.routine .typeParameters) do
  if ← optionalMark .less then
    let params ← commaList (.punctuator .greater) (typeParameter parse)
    discard <| expectMark .greater
    return params
  else return []

/-- A name with dots: its first part refers to a binding and the others do not. -/
def entityName : Parse Child := do
  if ← atAnyWord then
    let start ← here
    let text ← value
    advance
    let first ← finish start (.identifier text)
    iterate (some first : Child) fun name => do
      if ← optionalMark .dot then
        let right ← propertyName
        return .again (← finish start (.qualifiedName name right))
      else return .done name
  else
    reportHere .identifierExpected
    return none

def typeReference : Parse Child := labelled (.routine .typeReference) do
  let start ← here
  match ← entityName with
  | none => return none
  | some name =>
    let arguments ←
      if (← atMark .less) && !(← afterLineBreak) then typeArguments parse else pure []
    finish start (.typeReference name arguments)

end LoopCapture.Grammar
