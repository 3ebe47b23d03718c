import LoopCapture.Grammar.Functions

/-! # Expressions -/

namespace LoopCapture.Grammar
open Syntax (Child NodeId FunctionForm PropertyForm)
open Token (Kind)

variable (parse : Parser)

def expression : Parse Child := labelled (.routine .expression) do
  let start ← here
  match ← parse .assignment with
  | none => return none
  | some first =>
    if ← optionalMark .comma then
      let rest ← separated (.punctuator .comma) (parse .assignment)
      finish start (.sequence (first :: rest))
    else return first

/-- An assignment expression, or one that is spread. -/
def spreadable : Parse Child := labelled (.routine .spreadable) do
  let start ← here
  if ← optionalMark .ellipsis then
    let argument ← parse .assignment
    finish start (.spread argument)
  else parse .assignment

def arguments : Parse (List NodeId) := labelled (.routine .arguments) do
  if ← expectMark .openParen then
    let list ← allowIn (commaList (.punctuator .closeParen) (spreadable parse))
    discard <| expectMark .closeParen
    return list
  else return []

def yielding : Parse Child := labelled (.routine .yielding) do
  let start ← here
  advance
  let sameLine := !(← afterLineBreak)
  let delegate ← (pure sameLine) <&&> optionalMark .star
  let hasArgument ←
    match ← kind with
    | .punctuator .closeParen | .punctuator .closeBracket | .punctuator .closeBrace
    | .punctuator .comma | .punctuator .semicolon | .punctuator .colon | .endOfFile =>
      pure delegate
    | _ => pure (delegate || sameLine)
  let argument ← if hasArgument then parse .assignment else pure none
  finish start (.yield argument delegate)

/-- What precedes the body of an arrow function. -/
structure ArrowHead where
  start : Text.Offset
  isAsync : Bool
  typeParameters : List NodeId
  params : List NodeId
  returnType : Child

/-- The tokens ahead may begin an arrow function. -/
def mayBeArrow : Parse Bool := do
  match ← kind with
  | .punctuator .openParen | .punctuator .less => return true
  | .keyword .async_ =>
    nextOnSameLine (atName <||> atMark .openParen <||> atMark .less <||> atMark .arrow)
  | k => pure k.isName <&&> nextIsMark .arrow

/-- A single parameter without parentheses. -/
def bareParameter : Parse NodeId := do
  let start ← here
  let name ← identifier
  finish start (.parameter name false none)

/-- An arrow function up to and including the arrow, which must stand on the same line as what is
before it. -/
def arrowHead : Parse (Option ArrowHead) := labelled (.routine .arrowHead) do
  let start ← here
  let isAsync ← atWord .async_ <&&> (return !(← nextIsMark .arrow))
  if isAsync then advance
  let head? ←
    if ← atName then
      let param ← bareParameter
      pure (some { start, isAsync, typeParameters := [], params := [param],
                   returnType := none : ArrowHead })
    else
      let typeParameters ← typeParameters parse
      if ← atMark .openParen then
        let params ← parameterList parse
        let returnType ← returnTypeAfterColon parse
        pure (some { start, isAsync, typeParameters, params, returnType : ArrowHead })
      else pure none
  match head? with
  | none => return none
  | some head =>
    if (← atMark .arrow) && !(← afterLineBreak) then
      advance
      return some head
    else return none

/-- The body of an arrow function: a block or an expression. -/
def arrowBody (head : ArrowHead) : Parse NodeId := labelled (.routine .arrowBody) do
  let body ← within
    (fun c => { inFunction := true, isAsync := head.isAsync, withoutIn := c.withoutIn })
    (do if ← atMark .openBrace then block parse else parse .assignment)
  finish head.start (.function
    { form := .arrow, isGenerator := false, isAsync := head.isAsync, name := none,
      typeParameters := head.typeParameters, params := head.params,
      returnType := head.returnType, body })

/-- An arrow function, if the tokens ahead form the head of one without error. -/
def arrowFunction : Parse Child := labelled (.routine .arrowFunction) do
  if ← mayBeArrow then
    match ← attempt (arrowHead parse) with
    | some head => arrowBody parse head
    | none => return none
  else return none

/-- A conditional expression, or what would be its test. -/
def conditional : Parse Child := labelled (.routine .conditional) do
  let start ← here
  match ← parse (.binary 0) with
  | none => return none
  | some test =>
    if ← optionalMark .question then
      let consequent ← allowIn (parse .assignment)
      discard <| expectMark .colon
      let alternate ← parse .assignment
      finish start (.conditional test consequent alternate)
    else return test

/-- A literal that turns out to be the target of an assignment becomes a pattern. -/
def becomePattern (node : Child) : Parse Unit :=
  match node with
  | some node => .becomePattern node
  | none => pure ()

def assignmentBody : Parse Child := do
  if (← atWord .yield_) && (← state).context.isGenerator then yielding parse
  else
    match ← arrowFunction parse with
    | some node => return node
    | none =>
      let start ← here
      match ← conditional parse with
      | none => return none
      | some left =>
        let operator ← kind
        if operator.isAssignment then
          if operator = .punctuator .eq then becomePattern left
          advance
          let right ← parse .assignment
          finish start (.assignment operator left right)
        else return left

/-- How tightly a binary operator binds; zero when the token is none. -/
def precedence (withoutIn : Bool) : Kind → Nat
  | .punctuator .questionQuestion | .punctuator .barBar => 1
  | .punctuator .ampAmp => 2
  | .punctuator .bar => 3
  | .punctuator .caret => 4
  | .punctuator .amp => 5
  | .punctuator .eqEq | .punctuator .bangEq | .punctuator .eqEqEq | .punctuator .bangEqEq => 6
  | .keyword .in_ => if withoutIn then 0 else 7
  | .punctuator .less | .punctuator .greater | .punctuator .lessEq | .punctuator .greaterEq
  | .keyword .instanceof_ | .keyword .as_ | .keyword .satisfies_ => 7
  | .punctuator .shiftLeft | .punctuator .shiftRight | .punctuator .shiftRightUnsigned => 8
  | .punctuator .plus | .punctuator .minus => 9
  | .punctuator .star | .punctuator .slash | .punctuator .percent => 10
  | .punctuator .starStar => 11
  | _ => 0

/-- Logical operators may leave their right operand unevaluated. -/
def isLogical : Kind → Bool
  | .punctuator .barBar | .punctuator .ampAmp | .punctuator .questionQuestion => true
  | _ => false

/-- The type that an expression is cast to, or the word `const` after `as`. -/
def castTarget (operator : Kind) : Parse Child := do
  if (← atWord .const_) && operator = .keyword .as_ then
    let start ← here
    advance
    finish start (.typeKeyword "const")
  else parse .type

/-- One more operator of a chain and its right operand. The power operator associates to the right
and the others to the left. -/
def binaryRound (start : Text.Offset) (above : Nat) (left : Child) : Parse (Round Child) := do
  reread .greater
  let operator ← kind
  let level := precedence (← state).context.withoutIn operator
  if level ≤ above then return .done left
  else if operator = .keyword .as_ ∨ operator = .keyword .satisfies_ then
    if ← afterLineBreak then return .done left
    else
      advance
      let type ← castTarget parse operator
      return .again (← finish start (.typeCast left type))
  else
    advance
    let right ← parse (.binary (if operator = .punctuator .starStar then level - 1 else level))
    if right.isNone then
      reportHere .expressionExpected
    let node ← finish start
      (if isLogical operator then .logical operator left right else .binary operator left right)
    return .again node

def binaryBody (above : Nat) : Parse Child := do
  let start ← here
  match ← parse .unary with
  | none => return none
  | some first => iterate (some first : Child) (binaryRound parse start above)

def postfixBody : Parse Child := labelled (.routine .postfixBody) do
  let start ← here
  let operand ← parse .leftHandSide
  let operator ← kind
  if operand.isSome && (operator == .punctuator .plusPlus || operator == .punctuator .minusMinus)
      && !(← afterLineBreak) then
    advance
    finish start (.update operator false operand)
  else return operand

def angleCast : Parse Child := do
  let start ← here
  advance
  let type ← parse .type
  discard <| expectMark .greater
  let operand ← parse .unary
  finish start (.typeCast operand type)

def unaryBody : Parse Child := do
  let start ← here
  let operator ← kind
  match operator with
  | .punctuator .plus | .punctuator .minus | .punctuator .tilde | .punctuator .bang
  | .keyword .typeof_ | .keyword .void_ | .keyword .delete_ =>
    advance
    let argument ← parse .unary
    finish start (.unary operator argument)
  | .punctuator .plusPlus | .punctuator .minusMinus =>
    advance
    let argument ← parse .unary
    finish start (.update operator true argument)
  | .punctuator .less => angleCast parse
  | .keyword .await_ =>
    if (← state).context.awaitIsOperator then
      advance
      let argument ← parse .unary
      finish start (.await argument)
    else postfixBody parse
  | _ => postfixBody parse

def memberName : Parse Child := do
  if ← isAt .privateName then
    let start ← here
    let name ← value
    advance
    finish start (.privateName name)
  else propertyName

def template : Parse NodeId := labelled (.routine .template) do
  if ← isAt (.template .whole) then wholeTemplate
  else
    let start ← here
    let (quasis, nodes) ← templateParts (allowIn (expression parse))
    finish start (.template quasis nodes)

def computedKey : Parse Child := do
  let key ← allowIn (expression parse)
  discard <| expectMark .closeBracket
  return key

def optionalLink (start : Text.Offset) (object : Child) (allowCalls : Bool) : Parse NodeId := do
  if (← atMark .openParen) && allowCalls then
    let list ← arguments parse
    finish start (.call ⟨object, [], list, true⟩)
  else if ← optionalMark .openBracket then
    let key ← computedKey parse
    finish start (.member object key true true)
  else if (← atMark .less) && allowCalls then
    let types ← typeArguments parse
    let list ← arguments parse
    finish start (.call ⟨object, types, list, true⟩)
  else
    let name ← memberName
    finish start (.member object name false true)

/-- The type arguments of a call: they must close without error before an argument list. -/
def callTypeArguments : Parse (Option (List NodeId)) := attempt do
  let types ← typeArguments parse
  return if ← atMark .openParen then some types else none

/-- One more link of a chain of members, calls, templates and assertions. -/
def chainRound (start : Text.Offset) (allowCalls : Bool) (object : Child) :
    Parse (Round Child) := do
  match ← kind with
  | .punctuator .dot =>
    advance
    let name ← memberName
    return .again (← finish start (.member object name false false))
  | .punctuator .questionDot =>
    advance
    return .again (← optionalLink parse start object allowCalls)
  | .punctuator .openBracket =>
    advance
    let key ← computedKey parse
    return .again (← finish start (.member object key true false))
  | .punctuator .bang =>
    if ← afterLineBreak then return .done object
    else
      advance
      return .again (← finish start (.nonNull object))
  | .template .whole | .template .head =>
    let quasi ← template parse
    return .again (← finish start (.taggedTemplate object quasi))
  | .punctuator .openParen =>
    if allowCalls then
      let list ← arguments parse
      return .again (← finish start (.call ⟨object, [], list, false⟩))
    else return .done object
  | .punctuator .less =>
    if allowCalls then
      match ← callTypeArguments parse with
      | none => return .done object
      | some types =>
        let list ← arguments parse
        return .again (← finish start (.call ⟨object, types, list, false⟩))
    else return .done object
  | _ => return .done object

def chain (start : Text.Offset) (allowCalls : Bool) (object : NodeId) : Parse Child :=
  labelled (.routine .chain) (iterate (some object : Child) (chainRound parse start allowCalls))

/-- A property named by a word of the language: `new.target` or `import.meta`. -/
def metaProperty (start stop : Text.Offset) (word : String) : Parse NodeId := do
  let head ← addNode start stop (.propertyName word)
  let property ← propertyName
  finish start (.metaProperty head property)

def importExpression : Parse Child := labelled (.routine .importExpression) do
  let start ← here
  let stop ← tokenEnd
  advance
  if ← optionalMark .dot then metaProperty start stop "import"
  else if ← atMark .openParen then
    let list ← arguments parse
    finish start (.importCall list)
  else
    reportHere (.tokenExpected "(")
    return none

def arrayLiteral : Parse Child := labelled (.routine .arrayLiteral) do
  let start ← here
  advance
  let elements ← allowIn (elementList (spreadable parse))
  discard <| expectMark .closeBracket
  finish start (.array elements)

/-- A property's key may begin with the next token, so that the current word is a modifier. -/
def modifiesProperty : Parse Bool := lookAhead do
  advance
  match ← kind with
  | .string | .number | .bigInt | .privateName | .punctuator .openBracket
  | .punctuator .star => return true
  | k => return k.isWord

/-- The word `async` ahead is a modifier of a property. -/
def atAsyncProperty : Parse Bool :=
  atWord .async_ <&&> nextOnSameLine (return true) <&&> modifiesProperty

/-- A property without a value of its own, its name standing for a variable as well. A default is
kept for the case that the literal becomes a pattern. -/
def shorthandProperty (start : Text.Offset) (key : NodeId) (computed : Bool) : Parse Child := do
  match ← shapeOf key, computed, (← state).nodes[key]? with
  | some (.propertyName name), false, some node =>
    let target ← addNode node.start node.stop (.identifier name)
    let target ← shorthandDefault node.start target (parse .assignment)
    finish start (.property ⟨key, target, .init, false, true, false⟩)
  | _, _, _ =>
    reportHere (.tokenExpected ":")
    return none

def propertyMethod (start : Text.Offset) (form : PropertyForm) (isGenerator isAsync : Bool)
    (key : NodeId) (computed : Bool) : Parse Child := do
  let valueStart ← here
  let functionForm : FunctionForm := match form with
    | .init => .method
    | .get => .getter
    | .set => .setter
  let f ← functionRest parse functionForm isGenerator isAsync none
  let method ← finish valueStart (.function f)
  finish start (.property ⟨key, method, form, computed, false, form == .init⟩)

def objectProperty (start : Text.Offset) : Parse Child := do
  let isAsync ← atAsyncProperty
  if isAsync then advance
  let isGenerator ← optionalMark .star
  let form ←
    if isAsync || isGenerator then pure PropertyForm.init
    else if ← atWord .get_ <&&> modifiesProperty then pure PropertyForm.get
    else if ← atWord .set_ <&&> modifiesProperty then pure PropertyForm.set
    else pure PropertyForm.init
  if form ≠ .init then advance
  match ← propertyKey parse with
  | (none, _) => return none
  | (some key, computed) =>
    if isAsync || isGenerator || form ≠ .init || (← atParameters) then
      propertyMethod parse start form isGenerator isAsync key computed
    else if ← optionalMark .colon then
      let content ← parse .assignment
      finish start (.property ⟨key, content, form, computed, false, false⟩)
    else shorthandProperty parse start key computed

def objectMember : Parse Child := labelled (.routine .objectMember) do
  let start ← here
  if ← optionalMark .ellipsis then
    let argument ← parse .assignment
    finish start (.spread argument)
  else objectProperty parse start

def objectLiteral : Parse Child := labelled (.routine .objectLiteral) do
  let start ← here
  advance
  let properties ← allowIn (commaList (.punctuator .closeBrace) (objectMember parse))
  discard <| expectMark .closeBrace
  finish start (.object properties)

/-- A regular expression, the slash ahead being its first character. -/
def regExp : Parse NodeId := do
  reread .slash
  literal .regExp

/-- An expression without operators. Where none begins, an error is reported. -/
def primary : Parse Child := labelled (.routine .primary) do
  let start ← here
  match ← kind with
  | .keyword .this_ =>
    advance
    finish start .this
  | .keyword .super_ =>
    advance
    finish start .super
  | .keyword .null_ => literal .null
  | .keyword .true_ | .keyword .false_ => literal .boolean
  | .number => literal .number
  | .bigInt => literal .bigInt
  | .string => literal .string
  | .punctuator .slash | .punctuator .slashEq => regExp
  | .template .whole | .template .head => template parse
  | .punctuator .openParen =>
    advance
    let inner ← allowIn (expression parse)
    discard <| expectMark .closeParen
    return inner
  | .punctuator .openBracket => arrayLiteral parse
  | .punctuator .openBrace => objectLiteral parse
  | .keyword .function_ => functionExpression parse start false
  | .keyword .class_ => classLike parse start false true
  | .keyword .new_ => parse .creation
  | .keyword .import_ => importExpression parse
  | .privateName => memberName
  | k =>
    if ← (pure (k == .keyword .async_)) <&&> nextOnSameLine (atWord .function_) then
      advance
      functionExpression parse start true
    else if k.isName then identifier
    else
      reportHere .expressionExpected
      return none

/-- An object creation, or `new.target`. Calls are no part of what is created. -/
def creationBody : Parse Child := do
  let start ← here
  let stop ← tokenEnd
  advance
  if ← optionalMark .dot then metaProperty start stop "new"
  else
    let calleeStart ← here
    let callee? ← if ← atWord .new_ then parse .creation else primary parse
    match callee? with
    | none => return none
    | some callee =>
      let callee ← chain parse calleeStart false callee
      let types ←
        if ← atMark .less then
          let types ← attempt (some <$> typeArguments parse)
          pure (types.getD [])
        else pure []
      let list ← if ← atMark .openParen then arguments parse else pure []
      finish start (.new ⟨callee, types, list, false⟩)

def leftHandSideBody : Parse Child := do
  let start ← here
  let object? ← if ← atWord .new_ then parse .creation else primary parse
  match object? with
  | none => return none
  | some object => chain parse start true object

end LoopCapture.Grammar
