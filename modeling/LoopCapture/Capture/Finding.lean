import LoopCapture.Capture.Stability

/-! # Findings

A finding is a closure made in a loop with the names of what it captures and should not.
-/

namespace LoopCapture.Capture
open Text (Span)
open Syntax (NodeId)
open Scope (Reference)

/-- A closure with the names of its unsafe captures, each once, in the order of their first use. -/
structure Finding where
  closure : NodeId
  kindName : String
  names : List String
  span : Span
deriving DecidableEq, Repr

/-- A finding comes no later than another when its closure starts first, or starts with the other
and ends no earlier. -/
def Finding.precedes (a b : Finding) : Bool :=
  a.span.start < b.span.start || (a.span.start == b.span.start && b.span.stop ≤ a.span.stop)

namespace Program

def hasBody (p : Program) (closure : NodeId) : Bool :=
  (p.tree.function? (some closure)).any (·.body.isSome)

/-- The loop in which a closure is made that may outlive its round. -/
def exposingLoop? (p : Program) (closure : NodeId) : Option NodeId :=
  if p.hasBody closure && !p.isExempt closure then p.containingLoop closure else none

def isUnsafe (p : Program) (loop : NodeId) (r : Reference) : Bool :=
  r.resolved.isSome && !p.isSafe loop r

def unsafeNames (p : Program) (loop closure : NodeId) : List String :=
  (p.graph.nodeScope? (some closure)).elim [] fun scope =>
    (((p.captures scope).filter (p.isUnsafe loop)).map (·.name)).eraseDups

def findingOf? (p : Program) (closure : NodeId) (names : List String) : Option Finding :=
  if names.isEmpty then none
  else (p.tree.span? (some closure)).map fun span =>
    { closure, kindName := p.tree.kindName (some closure), names, span }

def finding? (p : Program) (closure : NodeId) : Option Finding :=
  (p.exposingLoop? closure).bind fun loop =>
    p.findingOf? closure (p.unsafeNames loop closure)

def closures (p : Program) : List NodeId :=
  (List.range p.tree.nodes.size).filter fun id => p.tree.isFunction (some id)

/-- The findings of a program in source order. -/
def findings (p : Program) : List Finding :=
  (p.closures.filterMap p.finding?).mergeSort Finding.precedes

end Program
end LoopCapture.Capture
