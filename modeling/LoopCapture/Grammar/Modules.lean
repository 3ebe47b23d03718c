import LoopCapture.Grammar.Expressions

/-! # Imports and exports -/

namespace LoopCapture.Grammar
open Syntax (Child NodeId Shape ImportForm)

variable (parse : Parser)

/-- The name of a module, as a string. Import attributes are parsed and left out of the tree. -/
def moduleSource : Parse Child := labelled (.routine .moduleSource) do
  if ← isAt .string then
    let source ← literal .string
    if (← (atWord .with_ <||> atNameText "assert")) && !(← afterLineBreak) then
      advance
      discard <| primary parse
    return source
  else
    reportHere (.tokenExpected "string literal")
    return none

/-- A name that a module exports: a word or a string. -/
def moduleExportName : Parse Child := do
  if ← isAt .string then literal .string else propertyName

/-- The word `type` ahead makes the whole import or export one of types, given what may follow
it. -/
def atTypeOnly (follows : Parse Bool) : Parse Bool := do
  if ← atWord .type_ <&&> lookAhead (do advance; follows) then
    advance
    return true
  else return false

/-- A specifier among the braces of an import. Without `as` the imported name is the local name as
well. -/
def importSpecifier (typeOnly : Bool) : Parse Child := do
  let start ← here
  let ownTypeOnly ← atTypeOnly
    ((atAnyWord <&&> (return !(← atWord .as_))) <||> isAt .string)
  let nameStart ← here
  let nameEnd ← tokenEnd
  let nameText ← value
  match ← moduleExportName with
  | none => return none
  | some imported =>
    let target ←
      if ← optionalWord .as_ then identifier
      else some <$> addNode nameStart nameEnd (.identifier nameText)
    finish start (.importSpecifier .byName imported target (typeOnly || ownTypeOnly))

def importSpecifiers (typeOnly : Bool) : Parse (List NodeId) := do
  if ← atMark .star then
    let start ← here
    advance
    discard <| expectWord .as_
    let target ← identifier
    return [← finish start (.importSpecifier .wholeModule none target typeOnly)]
  else if ← optionalMark .openBrace then
    let list ← commaList (.punctuator .closeBrace) (importSpecifier typeOnly)
    discard <| expectMark .closeBrace
    return list
  else return []

def importRest (start : Text.Offset) (typeOnly : Bool) (first : List NodeId) : Parse NodeId := do
  let others ← importSpecifiers typeOnly
  discard <| expectWord .from_
  let source ← moduleSource parse
  semicolon
  finish start (.importDeclaration (first ++ others) source typeOnly)

def importDeclaration : Parse NodeId := labelled (.routine .importDeclaration) do
  let start ← here
  advance
  let typeOnly ← atTypeOnly
    ((atName <&&> (return !(← atWord .from_))) <||> atMark .openBrace <||> atMark .star)
  if ← isAt .string then
    let source ← moduleSource parse
    semicolon
    finish start (.importDeclaration [] source typeOnly)
  else if ← atName then
    let targetStart ← here
    let target ← identifier
    if ← optionalMark .eq then
      let source ← expression parse
      semicolon
      let specifier ← finish targetStart (.importSpecifier .byDefault none target typeOnly)
      finish start (.importDeclaration [specifier] source typeOnly)
    else
      let specifier ← finish targetStart (.importSpecifier .byDefault none target typeOnly)
      discard <| optionalMark .comma
      importRest parse start typeOnly [specifier]
  else importRest parse start typeOnly []

def exportSpecifier : Parse Child := do
  let start ← here
  discard <| atTypeOnly atAnyWord
  match ← moduleExportName with
  | none => return none
  | some target =>
    let exported ← if ← optionalWord .as_ then moduleExportName else pure none
    finish start (.exportSpecifier target exported)

/-- The name that a specifier exports becomes one that stands for a variable. -/
def referToLocal (specifier : NodeId) : Parse Unit := do
  match ← shapeOf specifier with
  | some (.exportSpecifier (some target) _) =>
    match ← shapeOf target with
    | some (.propertyName name) =>
      reshape target (.identifier name)
    | _ => return
  | _ => return

/-- An export of names in braces, after the opening one. Without a module they are local names. -/
def exportNames (start : Text.Offset) (typeOnly : Bool) : Parse NodeId := do
  let specifiers ← commaList (.punctuator .closeBrace) exportSpecifier
  discard <| expectMark .closeBrace
  let source ←
    if ← optionalWord .from_ then moduleSource parse
    else
      unless typeOnly do
        specifiers.forM referToLocal
      pure none
  semicolon
  finish start (.exportNamed none specifiers source typeOnly)

def exportAll (start : Text.Offset) : Parse NodeId := do
  let exported ← if ← optionalWord .as_ then moduleExportName else pure none
  discard <| expectWord .from_
  let source ← moduleSource parse
  semicolon
  finish start (.exportAll exported source)

def typeAlias : Parse NodeId := labelled (.routine .typeAlias) do
  let start ← here
  advance
  let name ← identifier
  let typeParameters ← typeParameters parse
  discard <| expectMark .eq
  let type ← parse .type
  semicolon
  finish start (.typeAlias name typeParameters type)

def interface : Parse NodeId := labelled (.routine .interface) do
  let start ← here
  advance
  let name ← identifier
  let typeParameters ← typeParameters parse
  let bases ← if ← optionalWord .extends_ then supertypes parse else pure []
  let members ← typeMembers parse
  finish start (.interface name typeParameters bases members)

def enumMember : Parse Child := do
  let start ← here
  match ← propertyKey parse with
  | (none, _) => return none
  | (some name, _) =>
    let initializer ←
      if ← optionalMark .eq then allowIn (parse .assignment) else pure none
    finish start (.enumMember name initializer)

def enumeration (start : Text.Offset) (isConst : Bool) :
    Parse NodeId := labelled (.routine .enumeration) do
  discard <| expectWord .enum_
  let name ← identifier
  discard <| expectMark .openBrace
  let members ← commaList (.punctuator .closeBrace) (enumMember parse)
  discard <| expectMark .closeBrace
  finish start (.enum name isConst members)

def defaultDeclaration : Parse Child := do
  let start ← here
  let asExpression : Parse Child := do
    let node ← allowIn (parse .assignment)
    semicolon
    return node
  match ← kind with
  | .keyword .function_ => functionDeclaration parse start false true
  | .keyword .async_ =>
    if ← nextOnSameLine (atWord .function_) then
      advance
      functionDeclaration parse start true true
    else asExpression
  | .keyword .class_ => classLike parse start true true
  | .keyword .abstract_ =>
    if ← nextOnSameLine (atWord .class_) then
      advance
      classLike parse start true true
    else asExpression
  | .keyword .interface_ => if ← nextOnSameLine atName then interface parse else asExpression
  | _ => asExpression

def exportDeclaration : Parse NodeId := labelled (.routine .exportDeclaration) do
  let start ← here
  advance
  if ← optionalMark .eq then
    let node ← allowIn (parse .assignment)
    semicolon
    finish start (.exportDefault node)
  else if ← optionalWord .default_ then
    let declaration ← defaultDeclaration parse
    finish start (.exportDefault declaration)
  else
    let typeOnly ← atTypeOnly (atMark .openBrace <||> atMark .star)
    if ← optionalMark .star then exportAll parse start
    else if ← optionalMark .openBrace then exportNames parse start typeOnly
    else
      let declaration ← parse .statement
      finish start (.exportNamed declaration [] none typeOnly)

end LoopCapture.Grammar
