import LoopCapture.Scope.Resolution

/-! # Outlines of scope graphs

A nested summary of all scopes with their variables.
-/

namespace LoopCapture.Scope
open Text (Span)
open Syntax (Tree)

/-- A binding with the number of its references and of those that write. -/
structure VariableOutline where
  name : String
  kind : DeclarationKind
  references : Nat
  writes : Nat

/-- A scope with its variables, the names that pass through it, and the scopes inside. -/
inductive Outline where
  | scope (kind : ScopeKind) (block : String) (range : Span) (owned : List VariableOutline)
      (through : List String) (children : List Outline)
deriving Inhabited

namespace Graph

def variableOutline (g : Graph) (b : BindingId) : Option VariableOutline :=
  g.bindings[b]?.map fun binding =>
    { name := binding.name
      kind := binding.first.kind
      references := binding.references.size
      writes := binding.references.toList.countP fun r =>
        g.references[r]?.any (·.usage.write) }

/-- The outline of a scope, given those of the scopes inside. -/
def scopeOutline (g : Graph) (t : Tree) (scope : Scope) (children : List Outline) : Outline :=
  .scope scope.kind (t.kindName (some scope.block)) ((t.span? (some scope.block)).getD ⟨0, 0⟩)
    (scope.bindings.toList.filterMap g.variableOutline)
    (scope.through.toList.filterMap fun r => g.references[r]?.map (·.name))
    children

def outlineFrom (g : Graph) (t : Tree) (s : ScopeId) : Option Outline :=
  if present : s < g.scopes.size then
    let children := g.scopes[s].children.toList.filterMap fun child =>
      if later : s < child then
        have : g.scopes.size - child < g.scopes.size - s := Nat.sub_lt_sub_left present later
        outlineFrom g t child
      else none
    some (g.scopeOutline t g.scopes[s] children)
  else none
termination_by g.scopes.size - s

def outline (g : Graph) (t : Tree) : Option Outline := g.outlineFrom t 0

end Graph
end LoopCapture.Scope
