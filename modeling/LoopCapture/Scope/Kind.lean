/-! # Kinds of scopes, declarations and references -/

namespace LoopCapture.Scope

inductive ScopeKind where
  | global
  | module
  | function
  /-- Holds the name of a named function expression, around the scope of the function. -/
  | functionExpressionName
  | block
  /-- The head of a `for` that declares block-scoped variables. -/
  | forHead
  | catchClause
  | classBody
  | fieldInitializer
  | staticBlock
  | switch
deriving DecidableEq, Repr, Inhabited

def ScopeKind.word : ScopeKind → String
  | .global => "global"
  | .module => "module"
  | .function => "function"
  | .functionExpressionName => "function-expression-name"
  | .block => "block"
  | .forHead => "for"
  | .catchClause => "catch"
  | .classBody => "class"
  | .fieldInitializer => "class-field-initializer"
  | .staticBlock => "class-static-block"
  | .switch => "switch"

def ScopeKind.ownsVariables : ScopeKind → Bool
  | .global | .module | .function | .fieldInitializer | .staticBlock => true
  | _ => false

/-- How a name is declared. -/
inductive DeclarationKind where
  | varWord
  | letWord
  | constWord
  | usingWord
  | awaitUsing
  | parameter
  | functionName
  | functionExpressionName
  | className
  | catchParameter
  | imported
  /-- The object that holds the arguments of a function that is no arrow function. -/
  | implicitArguments
  /-- A global that the settings supply. -/
  | implicitGlobal
  | typeAlias
  | interface
  | enum
  | typeParameter
deriving DecidableEq, Repr, Inhabited

namespace DeclarationKind

def words : DeclarationKind → String
  | .varWord => "var"
  | .letWord => "let"
  | .constWord => "const"
  | .usingWord => "using"
  | .awaitUsing => "await using"
  | .parameter => "parameter"
  | .functionName => "function"
  | .functionExpressionName => "function-expression-name"
  | .className => "class"
  | .catchParameter => "catch"
  | .imported => "import"
  | .implicitArguments => "arguments"
  | .implicitGlobal => "global"
  | .typeAlias => "type"
  | .interface => "interface"
  | .enum => "enum"
  | .typeParameter => "type-parameter"

def tag : DeclarationKind → String
  | .varWord => "var"
  | .letWord => "let"
  | .constWord => "const"
  | .usingWord => "using"
  | .awaitUsing => "awaitUsing"
  | .parameter => "parameter"
  | .functionName => "functionName"
  | .functionExpressionName => "functionExpressionName"
  | .className => "className"
  | .catchParameter => "catchParameter"
  | .imported => "import"
  | .implicitArguments => "implicitArguments"
  | .implicitGlobal => "implicitGlobal"
  | .typeAlias => "typeAlias"
  | .interface => "interface"
  | .enum => "enum"
  | .typeParameter => "typeParameter"

/-- A variable that is never assigned again after its declaration. -/
def isConstant : DeclarationKind → Bool
  | .constWord | .usingWord | .awaitUsing => true
  | _ => false

def isValue : DeclarationKind → Bool
  | .typeAlias | .interface | .typeParameter => false
  | _ => true

def isType : DeclarationKind → Bool
  | .className | .imported | .implicitGlobal | .typeAlias | .interface | .enum
  | .typeParameter => true
  | _ => false

end DeclarationKind

/-- How a reference uses what it refers to. -/
structure Usage where
  read : Bool := false
  write : Bool := false
  /-- The reference stands in a type. -/
  isType : Bool := false
  /-- The write gives a declared variable its first value. -/
  isInit : Bool := false
deriving DecidableEq, Repr, Inhabited

namespace Usage

def reading : Usage := { read := true }

def writing : Usage := { write := true }

def updating : Usage := { read := true, write := true }

def initializing : Usage := { write := true, isInit := true }

def inType : Usage := { read := true, isType := true }

end Usage
end LoopCapture.Scope
