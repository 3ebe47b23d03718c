import LoopCapture.Proofs.Capture.Loop
import LoopCapture.Proofs.Capture.Memory
import Mathlib.Data.Finset.Card
import Mathlib.Data.Finset.Range
import Mathlib.Logic.Relation

/-!
# What was asked before does not show

A session replies to each of a row of questions as a session replies that is asked nothing else.
Where going from parent to parent never comes back, the way from loop to loop ends at a loop and not
for want of count, so that the outermost loop of a session is the outermost loop there is.
-/

namespace LoopCapture.Capture
open Text (Offset)
open Syntax (Child NodeId)

namespace Program

variable {p : Program}

/-- No node is an ancestor of itself. -/
def IsAcyclic (p : Program) : Prop :=
  ∀ node, ¬ Relation.TransGen (fun x y => p.tree.parent x = some y) node node

/-- Climbing from loop to loop ends at a loop around which there is none that starts at the border
or after it. -/
inductive ClimbsTo (p : Program) (border : Offset) : NodeId → Child → NodeId → Prop where
  | noLoop {top : NodeId} : ClimbsTo p border top none top
  | tooEarly {top loop : NodeId} (h : p.startsFrom border loop = false) :
    ClimbsTo p border top (some loop) top
  | further {top loop last : NodeId} (starts : p.startsFrom border loop = true)
    (h : ClimbsTo p border loop (p.containingLoop loop) last) :
    ClimbsTo p border top (some loop) last

theorem transGen_of_loopAround {n : Nat} {inner loop : NodeId}
    (found : p.loopAround n inner = some loop) :
    Relation.TransGen (fun x y => p.tree.parent x = some y) inner loop := by
  induction n generalizing inner with
  | zero => cases found
  | succ n ih =>
    rw [loopAround] at found
    split at found
    · cases found
    · rename_i outer parent
      split at found
      · obtain rfl := Option.some.inj found
        exact .single parent
      · split at found
        · cases found
        · exact .head parent (ih found)

/-- The loops passed on the way are nodes that lead to the next loop, each another one. When the
count is used up they are all nodes, and there is no next loop. -/
theorem climbsTo_climb (acyclic : p.IsAcyclic) {border : Offset} {n : Nat} {top : NodeId}
    {next : Child} (passed : Finset NodeId) (nodes : passed ⊆ Finset.range p.tree.nodes.size)
    (left : passed.card + n = p.tree.nodes.size)
    (ways : ∀ loop, next = some loop → ∀ x ∈ passed,
      Relation.TransGen (fun x y => p.tree.parent x = some y) x loop) :
    p.ClimbsTo border top next (p.climb border n top next) := by
  induction n generalizing top next passed with
  | zero =>
    cases next with
    | none => exact .noLoop
    | some loop =>
      refine .tooEarly (Bool.eq_false_iff.mpr fun starts => ?_)
      have all : passed = Finset.range p.tree.nodes.size :=
        Finset.eq_of_subset_of_card_le nodes (by simp [← left])
      have mem : loop ∈ passed := all ▸ Finset.mem_range.mpr (lt_size_of_startsFrom starts)
      exact acyclic loop (ways loop rfl loop mem)
  | succ n ih =>
    cases next with
    | none => exact .noLoop
    | some loop =>
      by_cases starts : p.startsFrom border loop = true
      · rw [climb, if_pos starts]
        have new : loop ∉ passed := fun mem => acyclic loop (ways loop rfl loop mem)
        refine .further starts (ih (insert loop passed) ?_ ?_ ?_)
        · exact Finset.insert_subset (Finset.mem_range.mpr (lt_size_of_startsFrom starts)) nodes
        · rw [Finset.card_insert_of_notMem new, ← left, Nat.add_right_comm, Nat.add_assoc]
        · intro outer around x mem
          have last := transGen_of_loopAround around
          obtain rfl | before := Finset.mem_insert.mp mem
          · exact last
          · exact (ways loop rfl x before).trans last
      · rw [climb, if_neg starts]
        exact .tooEarly (Bool.eq_false_iff.mpr starts)

/-- The outermost loop is where climbing ends, however often it has to be done. -/
theorem climbsTo_topLoop (acyclic : p.IsAcyclic) (loop : NodeId) (excluded : Child) :
    p.ClimbsTo (p.endOf excluded) loop (some loop) (p.topLoop loop excluded) :=
  climbsTo_climb acyclic ∅ (by simp) (by simp) (by simp)

/-- Where a measure rises from every node to its parent, no node is an ancestor of itself. -/
theorem isAcyclic_of_rises (height : NodeId → Nat)
    (rises : ∀ x y, p.tree.parent x = some y → height x < height y) : p.IsAcyclic := by
  have along : ∀ {x y}, Relation.TransGen (fun x y => p.tree.parent x = some y) x y →
      height x < height y := by
    intro x y way
    induction way with
    | single parent => exact rises _ _ parent
    | tail _ parent before => exact Nat.lt_trans before (rises _ _ parent)
  exact fun node back => Nat.lt_irrefl _ (along back)

end Program

namespace Session

inductive Reply where
  | verdict (holds : Bool)
  | loop (found : Child)
  | node (id : NodeId)
  | finding (found : Option Finding)
  | findings (found : List Finding)
deriving DecidableEq, Repr

def Question.reply (p : Program) : Question → Session Reply
  | .isExempt closure => return .verdict (← Session.isExempt p closure)
  | .containingLoop node => return .loop (← Session.containingLoop p node)
  | .topLoop loop excluded => return .node (← Session.topLoop p loop excluded)
  | .isSafe loop r => return .verdict (← Session.isSafe p loop r)
  | .finding closure => return .finding (← Session.finding? p closure)
  | .findings => return .findings (← Session.findings p)

def Question.answer (p : Program) : Question → Reply
  | .isExempt closure => .verdict (p.isExempt closure)
  | .containingLoop node => .loop (p.containingLoop node)
  | .topLoop loop excluded => .node (p.topLoop loop excluded)
  | .isSafe loop r => .verdict (p.isSafe loop r)
  | .finding closure => .finding (p.finding? closure)
  | .findings => .findings p.findings

def replies (p : Program) : List Question → Session (List Reply)
  | [] => return []
  | q :: asked => return (← q.reply p) :: (← replies p asked)

/-- What a new session says to a question. -/
def Question.freshReply (p : Program) (q : Question) : Reply := ((q.reply p).run {}).1

variable {p : Program}

theorem answers_reply (q : Question) : Answers p (q.reply p) (q.answer p) := by
  cases q with
  | isExempt closure => exact (answers_isExempt closure).bind (.pure _)
  | containingLoop node => exact (answers_containingLoop node).bind (.pure _)
  | topLoop loop excluded => exact (answers_topLoop loop excluded).bind (.pure _)
  | isSafe loop r => exact (answers_isSafe loop r).bind (.pure _)
  | finding closure => exact (answers_finding? closure).bind (.pure _)
  | findings => exact answers_findings.bind (.pure _)

theorem answers_replies (asked : List Question) :
    Answers p (replies p asked) (asked.map (·.answer p)) := by
  induction asked with
  | nil => exact .pure []
  | cons q asked ih => exact (answers_reply q).bind (ih.bind (.pure _))

/-- A new session replies by the definitions. -/
theorem freshReply_eq_answer (q : Question) : q.freshReply p = q.answer p :=
  (answers_reply q {} (Memory.sound_empty p)).1

/-- Whatever a session is asked, in whatever order, each reply is the one that a new session gives
to that question, and the outermost loops are not cut short for want of count. -/
theorem replies_eq_freshReplies (acyclic : p.IsAcyclic) (asked : List Question) :
    ((replies p asked).run {}).1 = asked.map (·.freshReply p) ∧
    ∀ loop excluded, p.ClimbsTo (p.endOf excluded) loop (some loop) (p.topLoop loop excluded) := by
  refine ⟨?_, Program.climbsTo_topLoop acyclic⟩
  simp only [freshReply_eq_answer]
  exact (answers_replies asked {} (Memory.sound_empty p)).1

/-- A function in two loops, the outer loop first: no parse leaves nodes in this order. -/
def outerFirst : Program where
  tree :=
    { nodes := #[⟨0, 40, .whileLoop none (some 1)⟩, ⟨10, 40, .whileLoop none (some 2)⟩,
        ⟨20, 40, .function ⟨.arrow, false, false, none, [], [], none, some 3⟩⟩, ⟨30, 31, .this⟩]
      root := 0
      parents := #[none, some 0, some 1, some 2] }
  graph := { nodeScopes := #[], declaredNames := #[] }

/-- Asked for the loop around the function before and after other questions, a session tells the
inner loop both times, as a new one does. -/
theorem replies_outerFirst :
    outerFirst.IsAcyclic ∧
    ((replies outerFirst [.containingLoop 2, .topLoop 1 none, .isExempt 2, .containingLoop 2]).run
      {}).1 = [.loop (some 1), .node 0, .verdict false, .loop (some 1)] := by
  have acyclic : outerFirst.IsAcyclic := by
    refine Program.isAcyclic_of_rises (10 - ·) fun x y parent => ?_
    match x, parent with
    | 1, rfl | 2, rfl | 3, rfl => decide
  refine ⟨acyclic, (replies_eq_freshReplies acyclic _).1.trans ?_⟩
  simp only [List.map, freshReply_eq_answer]
  rfl

end Session
end LoopCapture.Capture
