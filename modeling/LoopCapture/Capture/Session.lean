import LoopCapture.Capture.Finding
import Std.Data.HashMap

/-! # Sessions

A session answers questions about one program and remembers which closures are exempt and which
bindings are stable in which loop, so that neither is worked out twice.
-/

namespace LoopCapture.Capture
open Text (Offset)
open Syntax (Child NodeId parentWalkLimit)
open Scope (BindingId Reference)

/-- What a session has worked out so far. -/
structure Memory where
  exempt : Std.HashMap NodeId Bool := {}
  stable : Std.HashMap (NodeId × BindingId) Bool := {}
deriving Inhabited

/-- A computation that remembers. -/
abbrev Session := StateM Memory

namespace Session

def isExempt (p : Program) (closure : NodeId) : Session Bool := do
  match (← get).exempt[closure]? with
  | some known => return known
  | none =>
    let verdict := p.isExempt closure
    modify fun memory => { memory with exempt := memory.exempt.insert closure verdict }
    return verdict

/-- The first node around a node that repeats what lies on the way to it, unless a function that is
not exempt comes first. -/
def loopAround (p : Program) : Nat → NodeId → Session Child
  | 0, _ => return none
  | n + 1, inner => do
    match p.tree.parent inner with
    | none => return none
    | some outer =>
      if repeats p.tree outer inner then return some outer
      if p.tree.isFunction (some outer) then
        if !(← isExempt p outer) then return none
      loopAround p n outer

def containingLoop (p : Program) (node : NodeId) : Session Child :=
  loopAround p parentWalkLimit node

/-- Climbs from loop to loop as long as they start at the border or after it. -/
def climb (p : Program) (border : Offset) : Nat → NodeId → Child → Session NodeId
  | 0, top, _ => return top
  | _ + 1, top, none => return top
  | n + 1, top, some loop => do
    if p.startsFrom border loop then climb p border n loop (← containingLoop p loop) else return top

/-- The outermost of the loops around a loop that start after the excluded node ends. -/
def topLoop (p : Program) (loop : NodeId) (excluded : Child) : Session NodeId :=
  climb p (p.endOf excluded) p.tree.nodes.size loop (some loop)

/-- Works out whether a binding is stable in a loop. -/
def judge (p : Program) (loop : NodeId) (b : BindingId) : Session Bool := do
  match p.graph.bindings[b]? with
  | none => return true
  | some binding =>
    if binding.first.kind.isConstant || (freshDeclaration binding).any (p.isInside loop) then
      return true
    let top ← topLoop p loop (freshDeclaration binding)
    return (p.references binding.references.toList).all
      (p.isSettled binding (p.tree.startOf top))

def isStable (p : Program) (loop : NodeId) (b : BindingId) : Session Bool := do
  match (← get).stable[(loop, b)]? with
  | some known => return known
  | none =>
    let verdict ← judge p loop b
    modify fun memory => { memory with stable := memory.stable.insert (loop, b) verdict }
    return verdict

def isSafe (p : Program) (loop : NodeId) (r : Reference) : Session Bool := do
  if r.usage.isType then return true
  match r.resolved with
  | none => return true
  | some b => isStable p loop b

def unsafeAmong (p : Program) (loop : NodeId) : List Reference → Session (List Reference)
  | [] => return []
  | r :: rest => do
    if r.resolved.isNone then unsafeAmong p loop rest
    else if ← isSafe p loop r then unsafeAmong p loop rest
    else return r :: (← unsafeAmong p loop rest)

def finding? (p : Program) (closure : NodeId) : Session (Option Finding) := do
  if !p.hasBody closure then return none
  match ← containingLoop p closure with
  | none => return none
  | some loop =>
    if ← isExempt p closure then return none
    match p.graph.nodeScope? (some closure) with
    | none => return none
    | some scope =>
      let captured ← unsafeAmong p loop (p.captures scope)
      return p.findingOf? closure (captured.map (·.name)).eraseDups

def findingsOn (p : Program) : List NodeId → Session (List Finding)
  | [] => return []
  | closure :: rest => do
    match ← finding? p closure with
    | some finding => return finding :: (← findingsOn p rest)
    | none => findingsOn p rest

def findings (p : Program) : Session (List Finding) := do
  return (← findingsOn p p.closures).mergeSort Finding.precedes

end Session
end LoopCapture.Capture
