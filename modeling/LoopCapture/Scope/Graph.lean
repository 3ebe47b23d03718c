import LoopCapture.Scope.Kind
import LoopCapture.Syntax.Tree
import Std.Data.HashMap

/-! # Scope graphs

Scopes, bindings and references in the order of their creation, named by their places. A scope
knows the names it declares; a reference knows the scope it is made from and, after resolution, the
binding it means.
-/

namespace LoopCapture
open Text (Offset)
open Syntax (Child NodeId Tree)
namespace Scope

/-- The place of a scope in its graph. -/
abbrev ScopeId := Nat

abbrev BindingId := Nat

abbrev ReferenceId := Nat

/-- How many scopes are visited to resolve one reference. -/
def scopeWalkLimit : Nat := 10000

end Scope

structure Scope where
  kind : Scope.ScopeKind
  block : NodeId
  parent : Option Scope.ScopeId
  /-- The nearest scope, this one included, that owns `var` declarations. -/
  variableScope : Scope.ScopeId
  children : Array Scope.ScopeId := #[]
  /-- The bindings declared here, in the order of their first declarations. -/
  bindings : Array Scope.BindingId := #[]
  /-- The references made directly from here. -/
  references : Array Scope.ReferenceId := #[]
  /-- The references made from here or below that this scope does not resolve. -/
  through : Array Scope.ReferenceId := #[]
  names : Std.HashMap String Scope.BindingId := {}
deriving Inhabited

namespace Scope

structure Definition where
  kind : DeclarationKind
  /-- The identifier that is declared, if there is one. -/
  name : Child
  declaration : NodeId
deriving DecidableEq, Inhabited

/-- A name in a scope, with all its declarations there. -/
structure Binding where
  name : String
  scope : ScopeId
  first : Definition
  later : Array Definition := #[]
  /-- The loop whose head declares the binding, if one does. -/
  owningLoop : Child
  references : Array ReferenceId := #[]
  writable : Bool
deriving Inhabited

namespace Binding

def definitions (b : Binding) : List Definition := b.first :: b.later.toList

/-- Some declaration makes the name stand for a value. -/
def isValue (b : Binding) : Bool := b.definitions.any (·.kind.isValue)

def isType (b : Binding) : Bool := b.definitions.any (·.kind.isType)

end Binding

structure Reference where
  identifier : NodeId
  name : String
  scope : ScopeId
  start : Offset
  usage : Usage
  resolved : Option BindingId := none
deriving Inhabited

/-- The scopes, bindings and references of one text. -/
structure Graph where
  scopes : Array Scope := #[]
  bindings : Array Binding := #[]
  references : Array Reference := #[]
  /-- The last scope that each node opened. -/
  nodeScopes : Array (Option ScopeId)
  /-- The binding that each identifier declares. -/
  declaredNames : Array (Option BindingId)
deriving Inhabited

namespace Graph

def empty (t : Tree) : Graph :=
  { nodeScopes := Array.replicate t.nodes.size none
    declaredNames := Array.replicate t.nodes.size none }

def parentOf (g : Graph) (s : ScopeId) : Option ScopeId := g.scopes[s]?.bind (·.parent)

/-- A scope and the scopes around it, innermost first, as many as the count allows. -/
def chain (g : Graph) : Nat → Option ScopeId → List ScopeId
  | 0, _ => []
  | _ + 1, none => []
  | n + 1, some s =>
    match g.scopes[s]? with
    | none => []
    | some scope => s :: chain g n scope.parent

/-- The binding that a scope itself declares under a name. -/
def declared? (g : Graph) (s : ScopeId) (name : String) : Option BindingId :=
  g.scopes[s]?.bind fun scope => scope.names[name]?

/-- The last scope that a node opened. For a function it is its own scope, not that of its name. -/
def nodeScope? (g : Graph) (node : Child) : Option ScopeId :=
  node.bind fun id => g.nodeScopes[id]?.join

/-- The innermost scope around a node, its own included. -/
def enclosingScope? (g : Graph) (t : Tree) (node : Child) : Option ScopeId :=
  (g.nodeScope? node).or ((t.ancestors node).findSome? fun a => g.nodeScope? (some a))

def bindingsOf (g : Graph) (s : ScopeId) : List BindingId :=
  g.scopes[s]?.elim [] (·.bindings.toList)

def referencesOf (g : Graph) (b : BindingId) : List ReferenceId :=
  g.bindings[b]?.elim [] (·.references.toList)

def through (g : Graph) (s : ScopeId) : List ReferenceId :=
  g.scopes[s]?.elim [] (·.through.toList)

def variableScope? (g : Graph) (s : ScopeId) : Option ScopeId :=
  g.scopes[s]?.map (·.variableScope)

def bindingOfName? (g : Graph) (node : Child) : Option BindingId :=
  node.bind fun id => g.declaredNames[id]?.join

/-- What the first reference made by an identifier means. -/
def resolvedBinding? (g : Graph) (node : Child) : Option BindingId :=
  (g.references.find? (some ·.identifier == node)).bind (·.resolved)

/-- The binding of a value that a name means in a scope, looking outwards. Parents precede their
children, so a chain is no longer than the place of the scope tells. -/
def lookup? (g : Graph) (s : ScopeId) (name : String) : Option BindingId :=
  (g.chain (s + 1) (some s)).findSome? fun s =>
    (g.declared? s name).filter fun b => g.bindings[b]?.any Binding.isValue

end Graph
end Scope
end LoopCapture
