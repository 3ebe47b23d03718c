import LoopCapture.Capture.Loop

/-! # Bindings that are stable in a loop

A binding is stable in a loop when a closure made on any round of the loop sees the value that the
code of that round sees. Constants are stable, and so is a `let` inside the loop, which is fresh on
every round. Anything else is stable when it is written only before the outermost loop around
starts, and by the function that declares it.
-/

namespace LoopCapture.Capture
open Text (Offset)
open Syntax (Child NodeId)
open Scope (Binding BindingId DeclarationKind Reference)

/-- The declaration of a `let`: a loop around it makes the binding anew on every round. -/
def freshDeclaration (binding : Binding) : Child :=
  if binding.first.kind = .letWord then some binding.first.declaration else none

namespace Program

/-- The declaration lies strictly inside the loop. -/
def isInside (p : Program) (loop declaration : NodeId) : Bool :=
  match p.tree.span? (some loop), p.tree.span? (some declaration) with
  | some outer, some inner => outer.strictlyContains inner
  | _, _ => false

/-- A reference that does not write, or that writes before the border from the function where the
binding lives. -/
def isSettled (p : Program) (binding : Binding) (border : Offset) (r : Reference) : Bool :=
  !r.usage.write ||
    (p.graph.variableScope? r.scope == p.graph.variableScope? binding.scope && r.start < border)

/-- A binding has the same value in a closure made on a round of the loop and on that round. -/
def isStable (p : Program) (loop : NodeId) (b : BindingId) : Bool :=
  p.graph.bindings[b]?.all fun binding =>
    binding.first.kind.isConstant ||
      (freshDeclaration binding).any (p.isInside loop) ||
      (p.references binding.references.toList).all
        (p.isSettled binding (p.tree.startOf (p.topLoop loop (freshDeclaration binding))))

/-- A reference that a closure in the loop may capture: one in a type, one that means nothing, or
one to a binding that is stable in the loop. -/
def isSafe (p : Program) (loop : NodeId) (r : Reference) : Bool :=
  r.usage.isType || r.resolved.all (p.isStable loop)

end Program
end LoopCapture.Capture
