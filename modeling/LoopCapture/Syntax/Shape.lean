import LoopCapture.Token.Kind

/-! # Shapes of syntax nodes

A node's shape says what it is and which nodes it is made of. Nodes are named by their place in the
table that holds them, and a child that is missing is `none`. Parentheses leave no node behind.
-/

namespace LoopCapture.Syntax

/-- The place of a node in its table. -/
abbrev NodeId := Nat

/-- A node that may be missing. -/
abbrev Child := Option NodeId

inductive DeclarationWord where
  | varWord
  | letWord
  | constWord
  | usingWord
  | awaitUsing
deriving DecidableEq, Repr, Inhabited

inductive FunctionForm where
  | declaration
  | expression
  | arrow
  | method
  | getter
  | setter
  | constructor
deriving DecidableEq, Repr, Inhabited

/-- A function of any form. A signature without a body has none. -/
structure Function where
  form : FunctionForm
  isGenerator : Bool
  isAsync : Bool
  name : Child
  typeParameters : List NodeId
  params : List NodeId
  returnType : Child
  body : Child
deriving Repr, Inhabited

/-- Generators and async functions may give up control before they complete. -/
def Function.canSuspend (f : Function) : Bool := f.isGenerator || f.isAsync

/-- A class of either form. -/
structure Class where
  isDeclaration : Bool
  name : Child
  typeParameters : List NodeId
  superClass : Child
  implements : List NodeId
  members : List NodeId
deriving Repr, Inhabited

inductive LiteralForm where
  | string
  | number
  | bigInt
  | boolean
  | null
  | regExp
deriving DecidableEq, Repr, Inhabited

inductive PropertyForm where
  | init
  | get
  | set
deriving DecidableEq, Repr, Inhabited

structure Property where
  key : Child
  value : Child
  form : PropertyForm
  computed : Bool
  shorthand : Bool
  method : Bool
deriving Repr, Inhabited

/-- What an import specifier takes from a module. -/
inductive ImportForm where
  | byDefault
  | wholeModule
  | byName
deriving DecidableEq, Repr, Inhabited

structure Call where
  callee : Child
  typeArguments : List NodeId
  arguments : List NodeId
  optional : Bool
deriving Repr, Inhabited

structure Signature where
  key : Child
  typeParameters : List NodeId
  params : List NodeId
  returnType : Child
deriving Repr, Inhabited

/-- What a node is and what it is made of. -/
inductive Shape where
  | sourceFile (statements : List NodeId)
  -- names
  | identifier (name : String)
  | propertyName (name : String)
  | privateName (name : String)
  -- declarations and statements
  | variableDeclaration (word : DeclarationWord) (declarators : List NodeId)
  | variableDeclarator (target type init : Child)
  | function (f : Function)
  | parameter (pattern : Child) (optional : Bool) (type : Child)
  | classLike (c : Class)
  | methodDefinition (key : Child) (computed isStatic : Bool) (value : Child)
  | propertyDefinition (key : Child) (computed isStatic : Bool) (type value : Child)
  | staticBlock (statements : List NodeId)
  | block (statements : List NodeId)
  | empty
  | expressionStatement (expression : Child)
  | ifElse (test consequent alternate : Child)
  | forLoop (init test update body : Child)
  | forIn (left right body : Child) (isAwait : Bool)
  | forOf (left right body : Child) (isAwait : Bool)
  | whileLoop (test body : Child)
  | doWhile (body test : Child)
  | returning (argument : Child)
  | throwing (argument : Child)
  | breaking (label : Child)
  | continuing (label : Child)
  | labeled (label body : Child)
  | switch (discriminant : Child) (cases : List NodeId)
  | switchCase (test : Child) (consequent : List NodeId)
  | tryCatch (block handler finalizer : Child)
  | catchClause (param type body : Child)
  | debugger
  | withObject (object body : Child)
  | importDeclaration (specifiers : List NodeId) (source : Child) (typeOnly : Bool)
  | importSpecifier (form : ImportForm) (imported target : Child) (typeOnly : Bool)
  | exportNamed (declaration : Child) (specifiers : List NodeId) (source : Child)
      (typeOnly : Bool)
  | exportSpecifier (target exported : Child)
  | exportDefault (declaration : Child)
  | exportAll (exported source : Child)
  -- expressions
  | literal (form : LiteralForm) (value : String)
  | template (quasis : List String) (expressions : List NodeId)
  | taggedTemplate (tag quasi : Child)
  | this
  | super
  | array (elements : List Child)
  | object (properties : List NodeId)
  | property (p : Property)
  | spread (argument : Child)
  | unary (operator : Token.Kind) (argument : Child)
  | update (operator : Token.Kind) (before : Bool) (argument : Child)
  | binary (operator : Token.Kind) (left right : Child)
  | logical (operator : Token.Kind) (left right : Child)
  | assignment (operator : Token.Kind) (left right : Child)
  | conditional (test consequent alternate : Child)
  | call (c : Call)
  | new (c : Call)
  | member (object property : Child) (computed optional : Bool)
  | sequence (expressions : List NodeId)
  | await (argument : Child)
  | yield (argument : Child) (delegate : Bool)
  | metaProperty (head property : Child)
  | importCall (arguments : List NodeId)
  | typeCast (expression type : Child)
  | nonNull (expression : Child)
  -- patterns
  | objectPattern (properties : List NodeId)
  | arrayPattern (elements : List Child)
  | assignmentPattern (left right : Child)
  | restElement (argument : Child)
  -- declarations of types
  | typeAlias (name : Child) (typeParameters : List NodeId) (type : Child)
  | interface (name : Child) (typeParameters supertypes members : List NodeId)
  | enum (name : Child) (isConst : Bool) (members : List NodeId)
  | enumMember (name initializer : Child)
  | typeParameter (name constraint default : Child)
  -- types
  | typeKeyword (name : String)
  | typeReference (name : Child) (typeArguments : List NodeId)
  | qualifiedName (left right : Child)
  | typeQuery (name : Child)
  | typeLiteral (members : List NodeId)
  | propertySignature (key : Child) (computed optional : Bool) (type : Child)
  | methodSignature (s : Signature)
  | callSignature (s : Signature)
  | indexSignature (params : List NodeId) (type : Child)
  | functionType (s : Signature)
  | arrayType (element : Child)
  | tupleType (elements : List NodeId)
  | unionType (types : List NodeId)
  | intersectionType (types : List NodeId)
  | literalType (literal : Child)
  | typeOperator (operator : Token.Kind) (operand : Child)
  | indexedAccessType (object index : Child)
  | conditionalType (check bound whenTrue whenFalse : Child)
  | inferType (parameter : Child)
  | mappedType (parameter type : Child)
  | typePredicate (parameter type : Child)
deriving Inhabited

namespace Shape

def signatureChildren (s : Signature) : List Child :=
  s.key :: s.typeParameters.map some ++ s.params.map some ++ [s.returnType]

def callChildren (c : Call) : List Child :=
  c.callee :: c.typeArguments.map some ++ c.arguments.map some

/-- The places for children in a node, in source order, the missing ones included. -/
def slots : Shape → List Child
  | .identifier _ | .propertyName _ | .privateName _ | .empty | .debugger | .literal _ _ | .this
  | .super | .typeKeyword _ => []
  | .sourceFile l | .block l | .staticBlock l | .variableDeclaration _ l | .object l
  | .sequence l | .importCall l | .objectPattern l | .typeLiteral l | .tupleType l
  | .unionType l | .intersectionType l | .template _ l => l.map some
  | .array l | .arrayPattern l => l
  | .variableDeclarator a b c | .ifElse a b c | .tryCatch a b c | .catchClause a b c
  | .conditional a b c | .typeParameter a b c | .forIn a b c _ | .forOf a b c _ => [a, b, c]
  | .function f =>
    f.name :: f.typeParameters.map some ++ f.params.map some ++ [f.returnType, f.body]
  | .parameter a _ b => [a, b]
  | .classLike c =>
    c.name :: c.typeParameters.map some ++ c.superClass :: c.implements.map some
      ++ c.members.map some
  | .methodDefinition a _ _ b => [a, b]
  | .propertyDefinition a _ _ b c => [a, b, c]
  | .expressionStatement a | .returning a | .throwing a | .breaking a | .continuing a
  | .exportDefault a | .spread a | .await a | .nonNull a | .restElement a | .typeQuery a
  | .arrayType a | .literalType a | .inferType a | .unary _ a | .update _ _ a | .yield a _
  | .typeOperator _ a => [a]
  | .forLoop a b c d | .conditionalType a b c d => [a, b, c, d]
  | .whileLoop a b | .doWhile a b | .labeled a b | .withObject a b | .exportSpecifier a b
  | .exportAll a b | .taggedTemplate a b | .binary _ a b | .logical _ a b | .assignment _ a b
  | .metaProperty a b | .typeCast a b | .assignmentPattern a b | .enumMember a b
  | .qualifiedName a b | .indexedAccessType a b | .mappedType a b | .typePredicate a b
  | .member a b _ _ | .importSpecifier _ a b _ => [a, b]
  | .switch a l | .switchCase a l | .typeReference a l | .enum a _ l => a :: l.map some
  | .importDeclaration l a _ | .indexSignature l a => l.map some ++ [a]
  | .exportNamed a l b _ => a :: l.map some ++ [b]
  | .property p => [p.key, p.value]
  | .call c | .new c => callChildren c
  | .typeAlias a l b => a :: l.map some ++ [b]
  | .interface a l m n => a :: l.map some ++ m.map some ++ n.map some
  | .propertySignature a _ _ b => [a, b]
  | .methodSignature s | .callSignature s | .functionType s => signatureChildren s

/-- The children of a node in source order. -/
def children (s : Shape) : List NodeId := s.slots.filterMap id

/-- The loops: the three kinds of `for`, `while` and `do`. -/
def isLoop : Shape → Bool
  | .forLoop .. | .forIn .. | .forOf .. | .whileLoop .. | .doWhile .. => true
  | _ => false

def isFunction : Shape → Bool
  | .function _ => true
  | _ => false

def nameText? : Shape → Option String
  | .identifier name | .propertyName name | .privateName name => some name
  | _ => none

def kindName : Shape → String
  | .sourceFile _ => "Program"
  | .identifier _ | .propertyName _ => "Identifier"
  | .privateName _ => "PrivateIdentifier"
  | .variableDeclaration .. => "VariableDeclaration"
  | .variableDeclarator .. => "VariableDeclarator"
  | .function f =>
    match f.form with
    | .declaration => "FunctionDeclaration"
    | .arrow => "ArrowFunctionExpression"
    | _ => "FunctionExpression"
  | .parameter .. => "Parameter"
  | .classLike c => if c.isDeclaration then "ClassDeclaration" else "ClassExpression"
  | .methodDefinition .. => "MethodDefinition"
  | .propertyDefinition .. => "PropertyDefinition"
  | .staticBlock _ => "StaticBlock"
  | .block _ => "BlockStatement"
  | .empty => "EmptyStatement"
  | .expressionStatement _ => "ExpressionStatement"
  | .ifElse .. => "IfStatement"
  | .forLoop .. => "ForStatement"
  | .forIn .. => "ForInStatement"
  | .forOf .. => "ForOfStatement"
  | .whileLoop .. => "WhileStatement"
  | .doWhile .. => "DoWhileStatement"
  | .returning _ => "ReturnStatement"
  | .throwing _ => "ThrowStatement"
  | .breaking _ => "BreakStatement"
  | .continuing _ => "ContinueStatement"
  | .labeled .. => "LabeledStatement"
  | .switch .. => "SwitchStatement"
  | .switchCase .. => "SwitchCase"
  | .tryCatch .. => "TryStatement"
  | .catchClause .. => "CatchClause"
  | .debugger => "DebuggerStatement"
  | .withObject .. => "WithStatement"
  | .importDeclaration .. => "ImportDeclaration"
  | .importSpecifier .. => "ImportSpecifier"
  | .exportNamed .. => "ExportNamedDeclaration"
  | .exportSpecifier .. => "ExportSpecifier"
  | .exportDefault _ => "ExportDefaultDeclaration"
  | .exportAll .. => "ExportAllDeclaration"
  | .literal .. => "Literal"
  | .template .. => "TemplateLiteral"
  | .taggedTemplate .. => "TaggedTemplateExpression"
  | .this => "ThisExpression"
  | .super => "Super"
  | .array _ => "ArrayExpression"
  | .object _ => "ObjectExpression"
  | .property _ => "Property"
  | .spread _ => "SpreadElement"
  | .unary .. => "UnaryExpression"
  | .update .. => "UpdateExpression"
  | .binary .. => "BinaryExpression"
  | .logical .. => "LogicalExpression"
  | .assignment .. => "AssignmentExpression"
  | .conditional .. => "ConditionalExpression"
  | .call _ => "CallExpression"
  | .new _ => "NewExpression"
  | .member .. => "MemberExpression"
  | .sequence _ => "SequenceExpression"
  | .await _ => "AwaitExpression"
  | .yield .. => "YieldExpression"
  | .metaProperty .. => "MetaProperty"
  | .importCall _ => "ImportExpression"
  | .typeCast .. => "TSAsExpression"
  | .nonNull _ => "TSNonNullExpression"
  | .objectPattern _ => "ObjectPattern"
  | .arrayPattern _ => "ArrayPattern"
  | .assignmentPattern .. => "AssignmentPattern"
  | .restElement _ => "RestElement"
  | .typeAlias .. => "TSTypeAliasDeclaration"
  | .interface .. => "TSInterfaceDeclaration"
  | .enum .. => "TSEnumDeclaration"
  | .enumMember .. => "TSEnumMember"
  | .typeParameter .. => "TSTypeParameter"
  | .typeKeyword _ => "TSKeyword"
  | .typeReference .. => "TSTypeReference"
  | .qualifiedName .. => "TSQualifiedName"
  | .typeQuery _ => "TSTypeQuery"
  | .typeLiteral _ => "TSTypeLiteral"
  | .propertySignature .. => "TSPropertySignature"
  | .methodSignature _ => "TSMethodSignature"
  | .callSignature _ => "TSCallSignatureDeclaration"
  | .indexSignature .. => "TSIndexSignature"
  | .functionType _ => "TSFunctionType"
  | .arrayType _ => "TSArrayType"
  | .tupleType _ => "TSTupleType"
  | .unionType _ => "TSUnionType"
  | .intersectionType _ => "TSIntersectionType"
  | .literalType _ => "TSLiteralType"
  | .typeOperator .. => "TSTypeOperator"
  | .indexedAccessType .. => "TSIndexedAccessType"
  | .conditionalType .. => "TSConditionalType"
  | .inferType _ => "TSInferType"
  | .mappedType .. => "TSMappedType"
  | .typePredicate .. => "TSTypePredicate"

end Shape
end LoopCapture.Syntax
