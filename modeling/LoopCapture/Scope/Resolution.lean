import LoopCapture.Scope.Walk

/-! # Resolution

A reference means the binding of the innermost scope around it that accepts it. Scopes on the way
that do not accept it note that it passes through them.
-/

namespace LoopCapture.Scope
open Text (Offset)
open Syntax (Tree)

namespace Graph

/-- Where the body of the function starts that opened a scope. -/
def bodyStart? (g : Graph) (t : Tree) (s : ScopeId) : Option Offset :=
  g.scopes[s]?.bind fun scope =>
    if scope.kind = .function then
      ((t.function? (some scope.block)).bind (·.body)).bind fun body =>
        (t.span? (some body)).map (·.start)
    else none

/-- All declarations of a binding stand in the body that starts at the given place. -/
def declaredInBody (t : Tree) (binding : Binding) (bodyStart : Offset) : Bool :=
  binding.definitions.all fun definition =>
    (t.span? definition.name).all fun span => bodyStart ≤ span.start

/-- The binding of a scope that a reference may mean: one of its name and namespace, and for a
reference before the body of a function not one that is declared in the body alone. -/
def accepts? (g : Graph) (t : Tree) (s : ScopeId) (r : Reference) : Option BindingId :=
  (g.declared? s r.name).filter fun b =>
    g.bindings[b]?.any fun binding =>
      (if r.usage.isType then binding.isType else binding.isValue) &&
        !(g.bodyStart? t s).any fun start => r.start < start && declaredInBody t binding start

def passThrough (g : Graph) (id : ReferenceId) (s : ScopeId) : Graph :=
  { g with scopes := g.scopes.modify s fun scope =>
      { scope with through := scope.through.push id } }

def resolveTo (g : Graph) (id : ReferenceId) (b : BindingId) : Graph :=
  { g with
    references := g.references.modify id fun r => { r with resolved := some b }
    bindings := g.bindings.modify b fun binding =>
      { binding with references := binding.references.push id } }

/-- The scopes that a reference passes through, and the binding it comes to mean, if any. -/
def route (g : Graph) (t : Tree) (r : Reference) : List ScopeId → List ScopeId × Option BindingId
  | [] => ([], none)
  | s :: outer =>
    match g.accepts? t s r with
    | some b => ([], some b)
    | none =>
      let (passed, b) := route g t r outer
      (s :: passed, b)

def resolveReference (t : Tree) (g : Graph) (id : ReferenceId) : Graph :=
  match g.references[id]? with
  | none => g
  | some r =>
    let (passed, target) := g.route t r (g.chain scopeWalkLimit (some r.scope))
    let g := passed.foldl (·.passThrough id) g
    target.elim g (g.resolveTo id)

def resolveAll (g : Graph) (t : Tree) : Graph :=
  (List.range g.references.size).foldl (resolveReference t) g

def ofTree (t : Tree) (environment : Environment) : Graph :=
  ((walkTree t environment).run { graph := .empty t }).2.graph.resolveAll t

end Graph
end LoopCapture.Scope
