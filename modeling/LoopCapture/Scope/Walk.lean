import LoopCapture.Scope.Record

/-! # Walking a tree

Nodes are walked where values stand and where types stand. Names in types never observe a value,
except after `typeof`.
-/

namespace LoopCapture.Scope
open Syntax (Child NodeId Shape Tree Function Class Signature)

inductive Position where
  | value
  | type
deriving DecidableEq, Repr

/-- How the parts of a node are walked. -/
abbrev Walker := Position → NodeId → Record Unit

variable (t : Tree) (walk : Walker)

def value (node : Child) : Record Unit := node.forM (walk .value)

def type (node : Child) : Record Unit := node.forM (walk .type)

def values (nodes : List NodeId) : Record Unit := nodes.forM (walk .value)

def types (nodes : List NodeId) : Record Unit := nodes.forM (walk .type)

/-- Records a use as often as told. -/
def referTimes (node : NodeId) (usage : Usage) : Nat → Record Unit
  | 0 => pure ()
  | n + 1 => do
    refer t node usage
    referTimes node usage n

/-- Walks what a pattern carries beside its targets: its types and then what it evaluates. -/
def patternRest (parts : PatternParts) : Record Unit := do
  types walk parts.types.toList
  values walk parts.evaluated.toList

/-- Declares the targets of a pattern. Each default a target stands under gives it a first value,
and so does an initializer of the whole. -/
def declarePattern (pattern : Child) (s : Option ScopeId) (kind : DeclarationKind)
    (declaration : NodeId) (owningLoop : Child) (isInitialized : Bool) : Record Unit := do
  let parts := PatternParts.ofNode t pattern
  parts.targets.toList.forM fun target => do
    declare t s target.identifier kind declaration owningLoop
    referTimes t target.identifier .initializing
      (target.defaults + if isInitialized then 1 else 0)
  patternRest walk parts

def assignPattern (pattern : Child) (usage : Usage) : Record Unit := do
  let parts := PatternParts.ofNode t pattern
  parts.targets.toList.forM fun target => do
    referTimes t target.identifier .writing target.defaults
    refer t target.identifier usage
  patternRest walk parts

/-- A name, or one under assertions that do not change its value. -/
def isSimpleTarget (node : NodeId) : Bool :=
  match t.nodes.shape? node with
  | some (.identifier _) => true
  | some (.nonNull (some inner)) | some (.typeCast (some inner) _) =>
    if inner < node then isSimpleTarget inner else false
  | _ => false
termination_by node

/-- Walks the target of an operator that reads it as well. -/
def updateTarget (target : Child) : Record Unit :=
  if target.any (isSimpleTarget t) then assignPattern t walk target .updating
  else value walk target

/-- The first part of a name with dots. -/
def entityHead (node : NodeId) : Child :=
  match t.nodes.shape? node with
  | some (.qualifiedName left _) =>
    left.bind fun left => if left < node then entityHead left else none
  | _ => some node
termination_by node

def declareTypeParameters (s : ScopeId) (params : List NodeId) : Record Unit :=
  params.forM fun param =>
    match t.nodes.shape? param with
    | some (.typeParameter name constraint default) => do
      declare t (some s) name .typeParameter param
      type walk constraint
      type walk default
    | _ => pure ()

def signatureParams (params : List NodeId) : Record Unit :=
  params.forM fun param =>
    match t.nodes.shape? param with
    | some (.parameter _ _ annotated) => type walk annotated
    | _ => pure ()

/-- A computed key of a signature is walked. -/
def signatureKey (key : Child) : Record Unit :=
  match t.shape? key with
  | none | some (.propertyName _) | some (.literal ..) | some (.privateName _) => pure ()
  | _ => value walk key

def walkSignature (s : Signature) : Record Unit := do
  signatureKey t walk s.key
  types walk s.typeParameters
  signatureParams t walk s.params
  type walk s.returnType

/-- Walks a node where a type stands. Expressions among types are walked as such. -/
def typeStep (node : NodeId) : Record Unit :=
  match t.nodes.shape? node with
  | none => pure ()
  | some shape =>
    match shape with
    | .identifier _ => refer t node .inType
    | .typeReference name arguments => do
      type walk (name.bind (entityHead t))
      types walk arguments
    | .qualifiedName .. => type walk (entityHead t node)
    | .typeQuery name =>
      match name.bind (entityHead t) with
      | some head =>
        match t.nodes.shape? head with
        | some (.identifier _) => refer t head .reading
        | _ => pure ()
      | none => pure ()
    | .functionType s | .callSignature s | .methodSignature s => walkSignature t walk s
    | .indexSignature params annotated => do
      signatureParams t walk params
      type walk annotated
    | .propertySignature key computed _ annotated => do
      if computed then value walk key
      type walk annotated
    | .typeParameter _ constraint default => do
      type walk constraint
      type walk default
    | .typePredicate _ annotated => type walk annotated
    | .literalType literal =>
      match t.shape? literal with
      | some (.template _ substitutions) => types walk substitutions
      | _ => pure ()
    | .typeKeyword _ | .parameter .. | .propertyName _ | .privateName _ | .literal .. => pure ()
    | .arrayType _ | .tupleType _ | .unionType _ | .intersectionType _ | .typeLiteral _
    | .typeOperator .. | .indexedAccessType .. | .conditionalType .. | .inferType _
    | .mappedType .. | .restElement _ => types walk shape.children
    | _ => walk .value node

def wordKind : Syntax.DeclarationWord → DeclarationKind
  | .varWord => .varWord
  | .letWord => .letWord
  | .constWord => .constWord
  | .usingWord => .usingWord
  | .awaitUsing => .awaitUsing

def owningLoop? (node : NodeId) : Child :=
  let parent := t.parent node
  match t.shape? parent with
  | some (.forLoop init ..) => if init = some node then parent else none
  | some (.forIn left ..) | some (.forOf left ..) => if left = some node then parent else none
  | _ => none

/-- Declares the variables of a declaration: `var` in the scope that owns variables, the other
words in the open scope. -/
def variableDeclaration (node : NodeId) (word : Syntax.DeclarationWord)
    (declarators : List NodeId) : Record Unit := do
  let current ← openScope
  let owner ← .observe fun r => r.current.bind r.graph.variableScope?
  let s := if word = .varWord then owner else current
  declarators.forM fun declarator =>
    match t.nodes.shape? declarator with
    | some (.variableDeclarator target annotated init) => do
      declarePattern t walk target s (wordKind word) node (owningLoop? t node) init.isSome
      type walk annotated
      value walk init
    | _ => pure ()

def isLexical (node : Child) : Bool :=
  (t.declarationWord? node).any (· ≠ .varWord)

/-- Runs a step in a scope for the head of a loop, if the head declares block-scoped variables. -/
def inHeadScope (lexical : Bool) (loop : NodeId) (step : Record Unit) : Record Unit :=
  if lexical then inScope .forHead loop fun _ => step else step

/-- Records that every round of a loop assigns the variables that its head declares first. -/
def assignHead (declarators : List NodeId) : Record Unit :=
  match declarators.head?.bind (t.nodes.shape? ·) with
  | some (.variableDeclarator target ..) =>
    (PatternParts.ofNode t target).targets.toList.forM fun target =>
      refer t target.identifier .initializing
  | _ => pure ()

def walkForEach (node : NodeId) (left right body : Child) : Record Unit :=
  inHeadScope (isLexical t left) node do
    match left, t.shape? left with
    | some declaration, some (.variableDeclaration word declarators) => do
      variableDeclaration t walk declaration word declarators
      assignHead t declarators
    | _, _ => assignPattern t walk left .writing
    value walk right
    value walk body

def walkFor (node : NodeId) (init test update body : Child) : Record Unit :=
  inHeadScope (isLexical t init) node do
    value walk init
    value walk test
    value walk update
    value walk body

/-- Walks a function in its own scope. The statements of its body share that scope. -/
def walkFunctionScope (node : NodeId) (f : Function) : Record Unit :=
  inScope .function node fun s => do
    unless f.form = .arrow do
      discard <| declareImplicit s node "arguments" .implicitArguments
    declareTypeParameters t walk s f.typeParameters
    f.params.forM fun param => declarePattern t walk param (some s) .parameter node none false
    type walk f.returnType
    match t.shape? f.body with
    | some (.block statements) => values walk statements
    | _ => value walk f.body

/-- Walks a function. The name of a declaration is declared where it stands, that of an expression
in a scope around the function alone. -/
def walkFunction (node : NodeId) (f : Function) : Record Unit := do
  if f.form = .declaration then
    declare t (← openScope) f.name .functionName node
  if f.form = .expression ∧ f.name.isSome then
    inScope .functionExpressionName node fun s => do
      declare t (some s) f.name .functionExpressionName node
      walkFunctionScope t walk node f
  else walkFunctionScope t walk node f

/-- Walks a class. Its name is declared inside as well as, for a declaration, where it stands. -/
def walkClass (node : NodeId) (c : Syntax.Class) : Record Unit := do
  if c.isDeclaration then
    declare t (← openScope) c.name .className node
  inScope .classBody node fun s => do
    declare t (some s) c.name .className node
    declareTypeParameters t walk s c.typeParameters
    value walk c.superClass
    types walk c.implements
    values walk c.members

def walkField (key : Child) (computed : Bool) (annotated init : Child) : Record Unit := do
  if computed then value walk key
  type walk annotated
  init.forM fun init => inScope .fieldInitializer init fun _ => walk .value init

def walkImport (node : NodeId) (specifiers : List NodeId) : Record Unit := do
  let current ← openScope
  specifiers.forM fun specifier =>
    match t.nodes.shape? specifier with
    | some (.importSpecifier _ _ target _) => declare t current target .imported node
    | _ => pure ()

def walkExport (declaration : Child) (specifiers : List NodeId) (source : Child) :
    Record Unit := do
  value walk declaration
  if source.isNone then
    specifiers.forM fun specifier =>
      match t.nodes.shape? specifier with
      | some (.exportSpecifier target _) => value walk target
      | _ => pure ()

/-- Walks the cases of a `switch`, which share a scope. -/
def walkSwitch (node : NodeId) (discriminant : Child) (cases : List NodeId) : Record Unit := do
  value walk discriminant
  inScope .switch node fun _ =>
    cases.forM fun case =>
      match t.nodes.shape? case with
      | some (.switchCase test consequent) => do
        value walk test
        values walk consequent
      | _ => pure ()

def walkCatch (node : NodeId) (param annotated body : Child) : Record Unit :=
  inScope .catchClause node fun s => do
    declarePattern t walk param (some s) .catchParameter node none false
    type walk annotated
    value walk body

/-- Walks an enumeration. Its members bind nothing. -/
def walkEnum (node : NodeId) (name : Child) (members : List NodeId) : Record Unit := do
  declare t (← openScope) name .enum node
  members.forM fun member =>
    match t.nodes.shape? member with
    | some (.enumMember _ initializer) => value walk initializer
    | _ => pure ()

/-- Walks an assignment. A plain one only writes its target, the others read it first. -/
def walkAssignment (operator : Token.Kind) (left right : Child) : Record Unit := do
  if operator = .punctuator .eq then assignPattern t walk left .writing
  else updateTarget t walk left
  value walk right

def valueStep (node : NodeId) : Record Unit :=
  match t.nodes.shape? node with
  | none => pure ()
  | some shape =>
    match shape with
    | .sourceFile statements => values walk statements
    | .identifier _ => refer t node .reading
    | .propertyName _ | .privateName _ | .empty | .debugger | .breaking _ | .continuing _
    | .literal .. | .this | .super | .metaProperty .. | .exportAll .. | .importSpecifier ..
    | .exportSpecifier .. | .parameter .. | .variableDeclarator .. | .enumMember .. => pure ()
    | .variableDeclaration word declarators => variableDeclaration t walk node word declarators
    | .function f => walkFunction t walk node f
    | .classLike c => walkClass t walk node c
    | .methodDefinition key computed _ method => do
      if computed then value walk key
      value walk method
    | .propertyDefinition key computed _ annotated init =>
      walkField walk key computed annotated init
    | .staticBlock statements => inScope .staticBlock node fun _ => values walk statements
    | .importDeclaration specifiers .. => walkImport t node specifiers
    | .exportNamed declaration specifiers source _ =>
      walkExport t walk declaration specifiers source
    | .exportDefault a | .expressionStatement a | .returning a | .throwing a => value walk a
    | .typeAlias name typeParameters annotated => do
      declare t (← openScope) name .typeAlias node
      types walk typeParameters
      type walk annotated
    | .interface name typeParameters bases members => do
      declare t (← openScope) name .interface node
      types walk typeParameters
      types walk bases
      types walk members
    | .enum name _ members => walkEnum t walk node name members
    | .block statements => inScope .block node fun _ => values walk statements
    | .labeled _ body => value walk body
    | .ifElse .. | .whileLoop .. | .doWhile .. | .tryCatch .. | .withObject .. | .switchCase ..
    | .template .. | .taggedTemplate .. | .array _ | .object _ | .spread _ | .unary ..
    | .binary .. | .logical .. | .conditional .. | .sequence _ | .await _ | .yield ..
    | .importCall _ | .nonNull _ => values walk shape.children
    | .forLoop init test update body => walkFor t walk node init test update body
    | .forIn left right body _ | .forOf left right body _ => walkForEach t walk node left right body
    | .switch discriminant cases => walkSwitch t walk node discriminant cases
    | .catchClause param annotated body => walkCatch t walk node param annotated body
    | .property p => do
      if p.computed then value walk p.key
      value walk p.value
    | .update _ _ argument => updateTarget t walk argument
    | .assignment operator left right => walkAssignment t walk operator left right
    | .member object property computed _ => do
      value walk object
      if computed then value walk property
    | .call c | .new c => do
      value walk c.callee
      types walk c.typeArguments
      values walk c.arguments
    | .typeCast expression annotated => do
      value walk expression
      type walk annotated
    | .objectPattern _ | .arrayPattern _ | .assignmentPattern .. | .restElement _ =>
      assignPattern t walk (some node) .writing
    | .typeParameter .. | .typeKeyword _ | .typeReference .. | .qualifiedName .. | .typeQuery _
    | .typeLiteral _ | .propertySignature .. | .methodSignature _ | .callSignature _
    | .indexSignature .. | .functionType _ | .arrayType _ | .tupleType _ | .unionType _
    | .intersectionType _ | .literalType _ | .typeOperator .. | .indexedAccessType ..
    | .conditionalType .. | .inferType _ | .mappedType .. | .typePredicate .. => walk .type node

/-- Walks a node whose parts nest no deeper than the count. -/
def walkUpTo : Nat → Walker
  | 0, _, _ => pure ()
  | n + 1, .value, node => valueStep t (walkUpTo n) node
  | n + 1, .type, node => typeStep t (walkUpTo n) node

/-- Declares the configured globals, except those that are off. -/
def declareGlobals (s : ScopeId) (globals : Globals) : Record Unit :=
  globals.forM fun (name, access) =>
    if access = .off then pure ()
    else do
      let b ← declareImplicit s t.root name .implicitGlobal
      b.forM (Record.permit · (access = .writable))

/-- Walks a whole tree. A part stands lower in the table than what it is part of, and a node is
walked at most once in each position, so the size of the table bounds how deeply parts nest. -/
def walkTree (environment : Environment) : Record Unit :=
  inScope .global t.root fun s => do
    declareGlobals t s environment.globals
    let body := walkUpTo t (2 * t.nodes.size + 2) .value t.root
    match environment.sourceType with
    | .script => body
    | .module => inScope .module t.root fun _ => body

end LoopCapture.Scope
