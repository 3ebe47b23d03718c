import LoopCapture.Scope.Environment
import LoopCapture.Scope.Graph
import LoopCapture.Scope.Pattern

/-! # Recording scopes, bindings and references

A walk over a tree has one open scope. It runs steps inside new scopes, declares names and records
uses of names. What a use means is decided after the walk, when all declarations are known. What
holds of every program of such steps holds of every walk.
-/

namespace LoopCapture.Scope
open Syntax (Child NodeId Tree)

/-- The graph so far and the scope that is open. -/
structure Recording where
  graph : Graph
  current : Option ScopeId := none

namespace Graph

/-- Adds a scope, whose place is the number of scopes before. -/
def addScope (g : Graph) (kind : ScopeKind) (block : NodeId) (parent : Option ScopeId) : Graph :=
  let id := g.scopes.size
  let outer := parent.bind fun p => g.scopes[p]?.map (·.variableScope)
  let variableScope := if kind.ownsVariables then id else outer.getD id
  let scopes := g.scopes.push { kind, block, parent, variableScope }
  let scopes := match parent with
    | some p => scopes.modify p fun s => { s with children := s.children.push id }
    | none => scopes
  { g with scopes, nodeScopes := g.nodeScopes.setIfInBounds block (some id) }

/-- Adds a declaration of a name that the scope has under the name already. -/
def redeclare (g : Graph) (b : BindingId) (definition : Definition) (owningLoop : Child) : Graph :=
  { g with
    bindings := g.bindings.modify b fun binding =>
      { binding with
        later := binding.later.push definition
        owningLoop := binding.owningLoop.or owningLoop } }

/-- Adds a binding to a scope, whose place is the number of bindings before. -/
def addBinding (g : Graph) (s : ScopeId) (name : String) (definition : Definition)
    (owningLoop : Child) : Graph :=
  let b := g.bindings.size
  { g with
    bindings := g.bindings.push
      { name, scope := s, first := definition, owningLoop,
        writable := !definition.kind.isConstant }
    scopes := g.scopes.modify s fun scope =>
      { scope with names := scope.names.insert name b, bindings := scope.bindings.push b } }

/-- Adds a declaration of a name to a scope: to the binding that the scope has under the name, or to
a new one. -/
def addDefinition (g : Graph) (s : ScopeId) (name : String) (definition : Definition)
    (owningLoop : Child) : Option BindingId × Graph :=
  if s < g.scopes.size then
    match g.declared? s name with
    | some b => (some b, g.redeclare b definition owningLoop)
    | none => (some g.bindings.size, g.addBinding s name definition owningLoop)
  else (none, g)

/-- Notes which binding an identifier declares. -/
def nameNode (g : Graph) (node : Child) (b : Option BindingId) : Graph :=
  match node, b with
  | some node, some b => { g with declaredNames := g.declaredNames.setIfInBounds node (some b) }
  | _, _ => g

def permit (g : Graph) (b : BindingId) (writable : Bool) : Graph :=
  { g with bindings := g.bindings.modify b fun binding => { binding with writable } }

def addReference (g : Graph) (reference : Reference) : Graph :=
  let id := g.references.size
  { g with
    references := g.references.push reference
    scopes := g.scopes.modify reference.scope fun scope =>
      { scope with references := scope.references.push id } }

end Graph

/-- A step of a walk with a result. -/
inductive Record : Type → Type 1 where
  | done {α : Type} (a : α) : Record α
  | andThen {α β : Type} (p : Record α) (next : α → Record β) : Record β
  | observe {α : Type} (look : Recording → α) : Record α
  | define (s : ScopeId) (name : String) (definition : Definition) (owningLoop : Child) :
      Record (Option BindingId)
  /-- Allows or forbids to write a binding. -/
  | permit (b : BindingId) (writable : Bool) : Record Unit
  | use (node : NodeId) (name : String) (start : Text.Offset) (usage : Usage) : Record Unit
  | inScope (kind : ScopeKind) (block : NodeId) (step : ScopeId → Record Unit) : Record Unit

export Record (inScope)

namespace Record

instance : Monad Record where
  pure := .done
  bind := .andThen

end Record

namespace Recording

def enter (r : Recording) (kind : ScopeKind) (block : NodeId) : Recording :=
  ⟨r.graph.addScope kind block r.current, some r.graph.scopes.size⟩

def leave (r : Recording) : Recording := { r with current := r.current.bind r.graph.parentOf }

def define (r : Recording) (s : ScopeId) (name : String) (definition : Definition)
    (owningLoop : Child) : Option BindingId × Recording :=
  let (b, graph) := r.graph.addDefinition s name definition owningLoop
  (b, { r with graph := graph.nameNode definition.name b })

def use (r : Recording) (node : NodeId) (name : String) (start : Text.Offset) (usage : Usage) :
    Recording :=
  match r.current with
  | some scope =>
    { r with graph := r.graph.addReference { identifier := node, name, scope, start, usage } }
  | none => r

end Recording

/-- What a step results in, and the recording after it. -/
def Record.run {α : Type} : Record α → Recording → α × Recording
  | .done a, r => (a, r)
  | .andThen p next, r =>
    let (a, after) := p.run r
    (next a).run after
  | .observe look, r => (look r, r)
  | .define s name definition owningLoop, r => r.define s name definition owningLoop
  | .permit b writable, r => ((), { r with graph := r.graph.permit b writable })
  | .use node name start usage, r => ((), r.use node name start usage)
  | .inScope kind block step, r =>
    let (_, after) := (step r.graph.scopes.size).run (r.enter kind block)
    ((), after.leave)

def openScope : Record (Option ScopeId) := .observe (·.current)

def declare (t : Tree) (s : Option ScopeId) (name : Child) (kind : DeclarationKind)
    (declaration : NodeId) (owningLoop : Child := none) : Record Unit :=
  match s, t.nameText? name with
  | some s, some text => discard <| .define s text ⟨kind, name, declaration⟩ owningLoop
  | _, _ => pure ()

/-- Declares a name that no node declares, as the construct that opened the scope. -/
def declareImplicit (s : ScopeId) (block : NodeId) (name : String) (kind : DeclarationKind) :
    Record (Option BindingId) :=
  .define s name ⟨kind, none, block⟩ none

def refer (t : Tree) (node : NodeId) (usage : Usage) : Record Unit :=
  match t.nameText? (some node) with
  | some name => .use node name (t.startOf node) usage
  | none => pure ()

end LoopCapture.Scope
