import LoopCapture.Capture.Loop
import LoopCapture.Proofs.Grammar.Placed

/-!
# The way outwards from loop to loop

Loops around a node have larger places, so climbing from loop to loop ends at a loop and never for
want of count. They start no later either, and the less is excluded, the further the way leads.
Where the way begins does not matter to where it ends. The search for the innermost loop has a count
that the size of a program does not enter: it sees the loop around a node when the chain of links up
to that loop is short enough, and no loop otherwise.
-/

namespace LoopCapture.Capture
open Text (Offset)
open Syntax (Child NodeId)

namespace Program

/-- Parents are nodes and have larger places than their children. -/
def ParentsFollow (p : Program) : Prop :=
  ∀ x y, p.tree.parent x = some y → x < y ∧ y < p.tree.nodes.size

theorem parentsFollow_ofText (text : List Char) (environment : Scope.Environment) :
    (ofText text environment).ParentsFollow :=
  fun _ _ parent => Grammar.lt_parent_parseText text parent

variable {p : Program} (follow : p.ParentsFollow)

include follow

theorem lt_loopAround {n : Nat} {inner loop : NodeId} (found : p.loopAround n inner = some loop) :
    inner < loop ∧ loop < p.tree.nodes.size := by
  induction n generalizing inner with
  | zero => cases found
  | succ n ih =>
    rw [loopAround] at found
    split at found
    · cases found
    · rename_i outer parent
      have next := follow inner outer parent
      split at found
      · obtain rfl := Option.some.inj found
        exact next
      · split at found
        · cases found
        · have later := ih found
          exact ⟨Nat.lt_trans next.1 later.1, later.2⟩

theorem lt_containingLoop {node loop : NodeId} (found : p.containingLoop node = some loop) :
    node < loop ∧ loop < p.tree.nodes.size :=
  lt_loopAround follow found

omit follow in
theorem startsFrom_zero {loop : NodeId} (lt : loop < p.tree.nodes.size) :
    p.startsFrom 0 loop = true := by
  simp [startsFrom, Syntax.Tree.span?, lt]

omit follow in
theorem lt_size_of_startsFrom {border : Offset} {loop : NodeId}
    (starts : p.startsFrom border loop = true) : loop < p.tree.nodes.size := by
  by_contra outside
  simp [startsFrom, Syntax.Tree.span?, Array.getElem?_eq_none (Nat.not_lt.mp outside)] at starts

/-- A count that reaches the last node is enough. -/
theorem climb_enough {border : Offset} {n m : Nat} {top loop : NodeId}
    (enough : p.tree.nodes.size ≤ loop + n) (enough' : p.tree.nodes.size ≤ loop + m) :
    p.climb border n top (some loop) = p.climb border m top (some loop) := by
  induction n generalizing m top loop with
  | zero =>
    have outside : ¬ p.startsFrom border loop = true := fun starts =>
      Nat.not_lt.mpr enough (lt_size_of_startsFrom starts)
    cases m <;> simp [climb, outside]
  | succ n ih =>
    by_cases starts : p.startsFrom border loop = true
    · have inside := lt_size_of_startsFrom starts
      cases m with
      | zero => exact absurd inside (Nat.not_lt.mpr enough')
      | succ m =>
        rw [climb, climb, if_pos starts, if_pos starts]
        cases around : p.containingLoop loop with
        | none => cases n <;> cases m <;> rfl
        | some outer =>
          have later := (lt_containingLoop follow around).1
          exact ih (by grind) (by grind)
    · cases m <;> simp [climb, starts]

/-- The way from a loop to the outermost one goes through the loop around it. -/
theorem topLoop_eq_of_containingLoop {loop outer : NodeId} {excluded : Child}
    (around : p.containingLoop loop = some outer)
    (starts : p.startsFrom (p.endOf excluded) loop = true)
    (starts' : p.startsFrom (p.endOf excluded) outer = true) :
    p.topLoop loop excluded = p.topLoop outer excluded := by
  have later := (lt_containingLoop follow around).1
  obtain ⟨n, size⟩ := Nat.exists_eq_succ_of_ne_zero
    (Nat.ne_zero_of_lt (lt_size_of_startsFrom starts))
  calc p.topLoop loop excluded
    _ = p.climb (p.endOf excluded) n loop (some outer) := by
      rw [topLoop, size, climb, if_pos starts, around]
    _ = p.climb (p.endOf excluded) (n + 1) loop (some outer) :=
      climb_enough follow (by grind) (by grind)
    _ = p.topLoop outer excluded := by
      rw [topLoop, size, climb, climb, if_pos starts', if_pos starts']

omit follow

section Starts

variable {size : Nat} (nested : p.tree.IsNested size)

include nested

theorem startOf_le_of_parent {inner outer : NodeId} (parent : p.tree.parent inner = some outer) :
    p.tree.startOf outer ≤ p.tree.startOf inner := by
  obtain ⟨c, n, found, found', start, -⟩ := nested.nests inner outer (.inl parent)
  simpa [Syntax.Tree.startOf, found, found'] using start

theorem startOf_loopAround_le {n : Nat} {inner loop : NodeId}
    (found : p.loopAround n inner = some loop) : p.tree.startOf loop ≤ p.tree.startOf inner := by
  induction n generalizing inner with
  | zero => cases found
  | succ n ih =>
    rw [loopAround] at found
    split at found
    · cases found
    · rename_i outer parent
      have next := startOf_le_of_parent nested parent
      split at found
      · exact Option.some.inj found ▸ next
      · split at found
        · cases found
        · exact Nat.le_trans (ih found) next

/-- Climbing leads to loops that start no later. -/
theorem startOf_climb_le (border : Offset) (n : Nat) {top : NodeId} {next : Child}
    (further : ∀ loop, next = some loop → p.tree.startOf loop ≤ p.tree.startOf top) :
    p.tree.startOf (p.climb border n top next) ≤ p.tree.startOf top := by
  induction n generalizing top next with
  | zero => exact Nat.le_refl _
  | succ n ih =>
    cases next with
    | none => exact Nat.le_refl _
    | some loop =>
      rw [climb]
      split
      · refine Nat.le_trans (ih fun outer around => ?_) (further loop rfl)
        exact startOf_loopAround_le nested around
      · exact Nat.le_refl _

/-- Without a border climbing leads at least as far as with one. -/
theorem startOf_climb_zero_le (border : Offset) (n : Nat) {top : NodeId} {next : Child}
    (further : ∀ loop, next = some loop → p.tree.startOf loop ≤ p.tree.startOf top) :
    p.tree.startOf (p.climb 0 n top next) ≤ p.tree.startOf (p.climb border n top next) := by
  induction n generalizing top next with
  | zero => exact Nat.le_refl _
  | succ n ih =>
    cases next with
    | none => exact Nat.le_refl _
    | some loop =>
      by_cases starts : p.startsFrom border loop = true
      · have begins := startsFrom_zero (lt_size_of_startsFrom starts)
        rw [climb, climb, if_pos starts, if_pos begins]
        exact ih fun outer around => startOf_loopAround_le nested around
      · have stays : p.climb border (n + 1) top (some loop) = top := by simp [climb, starts]
        rw [stays]
        exact startOf_climb_le nested 0 (n + 1) further

/-- The outermost of all loops starts no later than the outermost one after some node. -/
theorem startOf_topLoop_none_le (loop : NodeId) (excluded : Child) :
    p.tree.startOf (p.topLoop loop none) ≤ p.tree.startOf (p.topLoop loop excluded) :=
  startOf_climb_zero_le nested _ _ fun _ same => Option.some.inj same ▸ Nat.le_refl _

end Starts

/-- Above a node, after so many links that lead neither out of a repeated part nor out of a function
that is not exempt, stands a loop that repeats what lies on the way. -/
inductive EncirclesAt (p : Program) : Nat → NodeId → NodeId → Prop where
  | here {inner loop : NodeId} (up : p.tree.parent inner = some loop)
    (again : repeats p.tree loop inner = true) : EncirclesAt p 0 inner loop
  | further {links : Nat} {inner outer loop : NodeId} (up : p.tree.parent inner = some outer)
    (once : repeats p.tree outer inner = false)
    (passes : p.tree.isFunction (some outer) = true → p.isExempt outer = true)
    (above : EncirclesAt p links outer loop) : EncirclesAt p (links + 1) inner loop

theorem loopAround_eq_some_iff {n : Nat} {inner loop : NodeId} :
    p.loopAround n inner = some loop ↔ ∃ links < n, p.EncirclesAt links inner loop := by
  constructor
  · intro found
    induction n generalizing inner with
    | zero => cases found
    | succ n ih =>
      rw [loopAround] at found
      split at found
      · cases found
      · rename_i outer up
        split at found
        · rename_i again
          obtain rfl := Option.some.inj found
          exact ⟨0, Nat.succ_pos n, .here up again⟩
        · rename_i once
          split at found
          · cases found
          · rename_i passes
            obtain ⟨links, lt, above⟩ := ih found
            exact ⟨links + 1, Nat.succ_lt_succ lt,
              .further up (Bool.eq_false_iff.mpr once) (by simpa using passes) above⟩
  · rintro ⟨links, lt, encircles⟩
    induction encircles generalizing n with
    | here up again =>
      obtain ⟨n, rfl⟩ := Nat.exists_eq_succ_of_ne_zero (Nat.ne_zero_of_lt lt)
      simp [loopAround, up, again]
    | further up once passes _ ih =>
      obtain ⟨n, rfl⟩ := Nat.exists_eq_succ_of_ne_zero (Nat.ne_zero_of_lt lt)
      simp only [loopAround, up, once, Bool.false_eq_true, if_false]
      rw [if_neg (by simpa using passes)]
      exact ih (Nat.lt_of_succ_lt_succ lt)

/-- The loop stands in the chain of ancestors after just so many links. -/
theorem EncirclesAt.getElem?_eq {links : Nat} {inner loop : NodeId} {chain : List NodeId}
    (encircles : p.EncirclesAt links inner loop)
    (lineage : p.tree.IsLineage (p.tree.parent inner) chain) : chain[links]? = some loop := by
  induction encircles generalizing chain with
  | here up _ => rw [up] at lineage; cases lineage; rfl
  | further up _ _ _ ih =>
    rw [up] at lineage
    cases lineage with
    | link rest => simpa using ih rest

theorem exists_isLineage_ofText (text : List Char) (environment : Scope.Environment)
    (node : NodeId) :
    ∃ chain, (ofText text environment).tree.IsLineage
      ((ofText text environment).tree.parent node) chain :=
  Syntax.Tree.exists_isLineage (Grammar.owned_parseText text) _

/-- A walk up from a node sees the first ancestors of the whole chain, as many as the limit allows:
the whole chain when it is no longer than the limit, and only then. The innermost loop is found when
fewer links than the limit lie before it, and only then. -/
theorem sees_ancestors_ofText (text : List Char) (environment : Scope.Environment) (node : NodeId) :
    ∃ chain, (ofText text environment).tree.IsLineage
        ((ofText text environment).tree.parent node) chain ∧
      (ofText text environment).tree.ancestors (some node) = chain.take Syntax.parentWalkLimit ∧
      ((ofText text environment).tree.ancestors (some node) = chain ↔
        chain.length ≤ Syntax.parentWalkLimit) ∧
      (∀ links loop, (ofText text environment).EncirclesAt links node loop →
        chain[links]? = some loop) ∧
      ∀ loop, (ofText text environment).containingLoop node = some loop ↔
        ∃ links < Syntax.parentWalkLimit,
          (ofText text environment).EncirclesAt links node loop := by
  obtain ⟨chain, lineage⟩ := exists_isLineage_ofText text environment node
  have seen := lineage.ancestors_eq_take
  refine ⟨chain, lineage, seen, ⟨fun whole => ?_, fun short => ?_⟩,
    fun _ _ encircles => encircles.getElem?_eq lineage, fun _ => loopAround_eq_some_iff⟩
  · rw [← whole, seen]
    exact List.length_take_le ..
  · rw [seen, List.take_of_length_le short]

end Program
end LoopCapture.Capture
