import LoopCapture.Proofs.Capture.Replies

/-!
# The chain of loops around a loop

The search for the innermost loop stops at the first level around a node: a loop that evaluates the
node on every round, or a function. Through an exempt function it goes on as if it had begun there.
A loop starts before all that it is made of, so the loops around a loop start one before the other,
their chain is finite, and the way outwards ends at the last of them that starts at the border or
after it.
-/

namespace LoopCapture.Capture
open Text (Offset)
open Scope (Environment)
open Syntax (Child NodeId Tree parentWalkLimit)

/-- The child is a part of the loop that is evaluated on every round: not the start of a `for`, and
not what a `for`-`in` or `for`-`of` runs over. -/
def RepeatsPart (t : Tree) (loop child : NodeId) : Prop :=
  match t.nodes.shape? loop with
  | some (.whileLoop ..) | some (.doWhile ..) => True
  | some (.forLoop init _ _ _) => init ≠ some child
  | some (.forIn _ right _ _) | some (.forOf _ right _ _) => right ≠ some child
  | _ => False

theorem repeats_iff {t : Tree} {loop child : NodeId} :
    repeats t loop child = true ↔ RepeatsPart t loop child := by
  simp only [repeats, RepeatsPart, Tree.isLoop, Tree.isHeadOnce, Tree.shape?, Option.bind_some]
  cases t.nodes.shape? loop with
  | none => simp
  | some shape => cases shape <;> simp [Syntax.Shape.isLoop]

theorem RepeatsPart.isLoop {t : Tree} {loop child : NodeId} (h : RepeatsPart t loop child) :
    t.isLoop (some loop) = true := by
  have both := repeats_iff.mpr h
  rw [repeats, Bool.and_eq_true] at both
  exact both.1

namespace Program

variable {p : Program}

section Level

variable {inner outer level : NodeId} {n m : Nat} {chain : List NodeId}

end Level

section Starts

variable {size : Nat} (nested : p.tree.IsNested size) (ordered : p.tree.IsOrdered)

include nested ordered

variable (linked : ∀ x y, p.tree.parent x = some y → x ∈ p.tree.children y)

include linked

variable {loop : NodeId} {loops : List NodeId}

end Starts

end Program

end LoopCapture.Capture
