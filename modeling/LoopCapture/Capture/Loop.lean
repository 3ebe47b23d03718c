import LoopCapture.Capture.Exemption

/-! # The loops around a node

A loop repeats what it evaluates on every round. The start of a `for` and what a `for`-`in` or
`for`-`of` runs over are evaluated once, and the inside of a function is repeated only where the
function is exempt.
-/

namespace LoopCapture.Capture
open Text (Offset)
open Syntax (Child NodeId Tree parentWalkLimit)

/-- The loop evaluates its child on every round. -/
def repeats (t : Tree) (loop child : NodeId) : Bool :=
  t.isLoop (some loop) && !t.isHeadOnce (some loop) (some child)

namespace Program

/-- The first node around a node that repeats what lies on the way to it, unless a function that is
not exempt comes first. As many links are followed as the count allows. -/
def loopAround (p : Program) : Nat → NodeId → Child
  | 0, _ => none
  | n + 1, inner =>
    match p.tree.parent inner with
    | none => none
    | some outer =>
      if repeats p.tree outer inner then some outer
      else if p.tree.isFunction (some outer) && !p.isExempt outer then none
      else p.loopAround n outer

/-- The innermost loop that evaluates a node on every round. -/
def containingLoop (p : Program) (node : NodeId) : Child := p.loopAround parentWalkLimit node

/-- Where a node ends, zero when there is none. -/
def endOf (p : Program) (node : Child) : Offset := ((p.tree.span? node).map (·.stop)).getD 0

/-- The node exists and starts at the border or after it. -/
def startsFrom (p : Program) (border : Offset) (node : NodeId) : Bool :=
  (p.tree.span? (some node)).any (border ≤ ·.start)

/-- Climbs from loop to loop, as often as the count allows and as long as the loops start at the
border or after it. -/
def climb (p : Program) (border : Offset) : Nat → NodeId → Child → NodeId
  | 0, top, _ => top
  | _ + 1, top, none => top
  | n + 1, top, some loop =>
    if p.startsFrom border loop then p.climb border n loop (p.containingLoop loop) else top

/-- The outermost of the loops around a loop, itself included, that start after the excluded node
ends. A loop contains fewer loops than there are nodes. -/
def topLoop (p : Program) (loop : NodeId) (excluded : Child) : NodeId :=
  p.climb (p.endOf excluded) p.tree.nodes.size loop (some loop)

end Program
end LoopCapture.Capture
