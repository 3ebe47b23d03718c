import LoopCapture.Proofs.Scope.Housing
import LoopCapture.Proofs.Scope.WellFormed
import Mathlib.Data.List.Sort

/-!
# The order in which scopes are opened

A scope is opened inside the one before it or inside a scope around that. So the scopes inside a
scope follow it without a gap, those inside the first child before those inside the second, and
going through a scope and the scopes inside it, each before those inside it, is going through them
in the order in which they were opened.
-/

namespace LoopCapture.Scope
open Syntax (NodeId Tree)

namespace Graph

/-- Every scope but the first was opened inside the scope before it or inside one around that. -/
def Stacked (g : Graph) : Prop := ∀ s p, g.parentOf (s + 1) = some p → g.IsBelow s p

variable {g g' : Graph} {s x y outer : ScopeId}

theorem lt_size_of_parentOf {p : ScopeId} (parent : g.parentOf s = some p) : s < g.scopes.size := by
  by_contra outside
  simp [parentOf, Array.getElem?_eq_none (Nat.not_lt.mp outside)] at parent

theorem Stacked.of_parents (h : g.Stacked) (same : ∀ s, g'.parentOf s = g.parentOf s) :
    g'.Stacked := by
  intro s p parent
  exact (isBelow_congr same).mpr (h s p ((same (s + 1)).symm.trans parent))

/-- What was opened after a scope and not after one below it is below it. -/
theorem Stacked.isBelow_between (h : g.Stacked) (below : g.IsBelow x outer) (after : outer ≤ y)
    (before : y ≤ x) : g.IsBelow y outer := by
  induction x with
  | zero => exact Nat.le_zero.mp before ▸ below
  | succ x ih =>
    obtain lt | rfl := Nat.lt_or_eq_of_le before
    · have old := Nat.le_of_lt_succ lt
      obtain ⟨k, reached⟩ := below
      cases k with
      | zero => exact absurd (Option.some.inj reached) (Nat.ne_of_gt (Nat.lt_of_le_of_lt after lt))
      | succ k =>
        obtain ⟨p, parent, rest⟩ := Option.bind_eq_some_iff.mp reached
        exact ih ((h x p parent).trans ⟨k, rest⟩) old
    · exact below

end Graph

namespace Recording

/-- Every scope was opened inside the one before it or one around that, and so would the next be. -/
structure Stacked (r : Recording) : Prop where
  sound : r.Sound
  graph : r.graph.Stacked
  current : ∀ s c, r.graph.scopes.size = s + 1 → r.current = some c → r.graph.IsBelow s c

variable {r r' : Recording}

theorem stacked_empty (t : Tree) : Stacked { graph := .empty t } where
  sound := ⟨Graph.sound_empty t, by simp⟩
  graph s p parent := by simp [Graph.parentOf, Graph.empty] at parent
  current s c _ opened := by cases opened

/-- A step that opens no scope. -/
theorem Stacked.of_grows (h : r.Stacked) (sound : r'.Sound) (grows : r.Grows r')
    (size : r'.graph.scopes.size = r.graph.scopes.size) : r'.Stacked where
  sound := sound
  graph s p parent := by
    have lt : s + 1 < r.graph.scopes.size := size ▸ Graph.lt_size_of_parentOf parent
    exact grows.isBelow h.sound (Nat.lt_of_succ_lt lt)
      (h.graph s p ((grows.parentOf_eq _ lt).symm.trans parent))
  current s c last opened := by
    have lt : s < r.graph.scopes.size := by omega
    exact grows.isBelow h.sound lt (h.current s c (size.symm.trans last)
      (grows.current_eq.symm.trans opened))

theorem Stacked.enter (h : r.Stacked) (kind : ScopeKind) (block : NodeId) :
    (r.enter kind block).Stacked where
  sound := h.sound.enter kind block
  graph s p parent := by
    have old (s : ScopeId) (lt : s < r.graph.scopes.size) :
        (r.enter kind block).graph.parentOf s = r.graph.parentOf s := by
      simp [Recording.enter, Graph.parentOf_addScope, Nat.ne_of_lt lt]
    have le : s + 1 ≤ r.graph.scopes.size := by
      simpa [Recording.enter, Nat.lt_succ_iff] using Graph.lt_size_of_parentOf parent
    refine Graph.IsBelow.of_parents h.sound.graph.parent_lt old le ?_
    obtain lt | last := Nat.lt_or_eq_of_le le
    · exact h.graph s p ((old _ lt).symm.trans parent)
    · refine h.current s p last.symm ?_
      simpa [Recording.enter, Graph.parentOf_addScope, last] using parent
  current s c last opened := by
    have here : r.graph.scopes.size = s := by simpa [Recording.enter] using last
    have this : r.graph.scopes.size = c := by simpa [Recording.enter] using opened
    exact ⟨0, congrArg some (here.symm.trans this)⟩

/-- Leaving a scope, the next one would be opened inside the scope around it. -/
theorem Stacked.leave (h : r.Stacked) : r.leave.Stacked where
  sound := by
    refine ⟨h.sound.graph, fun s opened => ?_⟩
    obtain ⟨c, current, parent⟩ := Option.bind_eq_some_iff.mp opened
    exact Nat.lt_trans (h.sound.graph.parent_lt c s parent) (h.sound.current c current)
  graph := h.graph
  current s p last opened := by
    obtain ⟨c, current, parent⟩ := Option.bind_eq_some_iff.mp opened
    exact (h.current s c last current).trans ⟨1, Option.bind_eq_some_iff.mpr ⟨p, parent, rfl⟩⟩

end Recording

/-- Every program of steps opens its scopes in this order. -/
theorem Record.stacked_run {α : Type} (p : Record α) {r : Recording} (h : r.Stacked) :
    (p.run r).2.Stacked := by
  induction p generalizing r with
  | done a => exact h
  | andThen p next ihp ihn => exact ihn _ (ihp h)
  | observe look => exact h
  | define s name definition owningLoop =>
    refine h.of_grows (sound_run (.define s name definition owningLoop) h.sound)
      (grows_run (.define s name definition owningLoop) r) ?_
    simp [run, Recording.define]
  | permit b writable =>
    exact h.of_grows (sound_run (.permit b writable) h.sound) (grows_run (.permit b writable) r) rfl
  | use node name start usage =>
    refine h.of_grows (sound_run (.use node name start usage) h.sound)
      (grows_run (.use node name start usage) r) ?_
    simp only [run, Recording.use]
    split <;> simp [Graph.addReference]
  | inScope kind block step ih => exact (ih _ (h.enter kind block)).leave

namespace Graph

theorem stacked_ofTree (t : Tree) (environment : Environment) : (ofTree t environment).Stacked :=
  ((walkTree t environment).stacked_run (Recording.stacked_empty t)).graph.of_parents
    (parentOf_congr (bare_resolveFirst t _))

def inside (g : Graph) (s : ScopeId) : List ScopeId :=
  (List.range g.scopes.size).filter fun x => s ∈ g.chain (x + 1) (some x)

variable {g : Graph} {s x y child other : ScopeId}

theorem mem_inside (precede : g.ParentsPrecede) :
    x ∈ g.inside s ↔ x < g.scopes.size ∧ g.IsBelow x s := by
  simp only [inside, List.mem_filter, List.mem_range, decide_eq_true_eq]
  refine and_congr_right fun lt => ?_
  rw [mem_chain precede lt]
  constructor
  · rintro ⟨k, -, reached⟩
    exact ⟨k, reached⟩
  · rintro ⟨k, reached⟩
    exact ⟨k, Nat.lt_succ_of_le (Nat.le_trans (Nat.le_add_left k s) (ancestor?_le precede reached)),
      reached⟩

theorem pairwise_inside (g : Graph) (s : ScopeId) : (g.inside s).Pairwise (· < ·) :=
  List.pairwise_lt_range.filter _

/-- All that is inside one child was opened before what is inside a later one. -/
theorem Stacked.lt_of_siblings (h : g.Stacked) (precede : g.ParentsPrecede)
    (parent : g.parentOf child = some s) (parent' : g.parentOf other = some s) (lt : child < other)
    (below : g.IsBelow x child) (below' : g.IsBelow y other) : x < y := by
  by_contra later
  have after : other ≤ x := Nat.le_trans (below'.le precede) (Nat.not_lt.mp later)
  obtain ⟨k, reached⟩ := h.isBelow_between below (Nat.le_of_lt lt) after
  cases k with
  | zero => exact Nat.ne_of_gt lt (Option.some.inj reached)
  | succ k =>
    -- the way from the later child to the earlier one would lead through their parent
    obtain ⟨p, is, rest⟩ := Option.bind_eq_some_iff.mp reached
    obtain rfl := Option.some.inj (parent'.symm.trans is)
    exact Nat.not_le_of_lt (precede _ _ parent) (Nat.le_trans (Nat.le_add_right _ _)
      (ancestor?_le precede rest))

/-- What is inside a scope is the scope itself and then, child by child, what is inside the
children. -/
theorem Stacked.inside_eq (h : g.Stacked) (precede : g.ParentsPrecede) {children : List ScopeId}
    (listed : children = (List.range g.scopes.size).filter (g.parentOf · = some s))
    (lt : s < g.scopes.size) : g.inside s = s :: children.flatMap g.inside := by
  have mem_children {child : ScopeId} : child ∈ children ↔ g.parentOf child = some s := by
    rw [listed, List.mem_filter, List.mem_range, decide_eq_true_eq, and_iff_right_iff_imp]
    exact lt_size_of_parentOf
  have increasing : children.Pairwise (· < ·) := listed ▸ List.pairwise_lt_range.filter _
  refine List.Pairwise.eq_of_mem_iff (r := (· < ·)) (g.pairwise_inside s) ?_ fun x => ?_
  · refine List.pairwise_cons.mpr ⟨fun x mem => ?_, List.pairwise_flatMap.mpr
      ⟨fun child _ => g.pairwise_inside child, increasing.imp_of_mem ?_⟩⟩
    · obtain ⟨child, isChild, mem⟩ := List.mem_flatMap.mp mem
      exact Nat.lt_of_lt_of_le (precede _ _ (mem_children.mp isChild))
        (((mem_inside precede).mp mem).2.le precede)
    · intro child other isChild isChild' lt x mem y mem'
      exact h.lt_of_siblings precede (mem_children.mp isChild) (mem_children.mp isChild') lt
        ((mem_inside precede).mp mem).2 ((mem_inside precede).mp mem').2
  · rw [List.mem_cons, List.mem_flatMap, mem_inside precede]
    constructor
    · rintro ⟨inside, below⟩
      by_cases here : x = s
      · exact .inl here
      · obtain ⟨child, parent, below⟩ := exists_child_of_isBelow below here
        exact .inr ⟨child, mem_children.mpr parent, (mem_inside precede).mpr ⟨inside, below⟩⟩
    · rintro (rfl | ⟨child, isChild, mem⟩)
      · exact ⟨lt, 0, rfl⟩
      · obtain ⟨inside, below⟩ := (mem_inside precede).mp mem
        exact ⟨inside, below.trans
          ⟨1, Option.bind_eq_some_iff.mpr ⟨s, mem_children.mp isChild, rfl⟩⟩⟩

variable {t : Tree}

theorem WellFormed.isBelow_zero (h : g.WellFormed t) (lt : s < g.scopes.size) : g.IsBelow s 0 := by
  induction s using Nat.strongRecOn with
  | ind s ih =>
    by_cases first : s = 0
    · exact ⟨0, congrArg some first⟩
    · obtain ⟨p, parent⟩ := Option.ne_none_iff_exists'.mp (mt (h.parent_eq_none_iff s lt).mp first)
      have before := h.parent_lt s p parent
      have step : g.IsBelow s p := ⟨1, Option.bind_eq_some_iff.mpr ⟨p, parent, rfl⟩⟩
      exact step.trans (ih p before (Nat.lt_trans before lt))

theorem WellFormed.inside_zero (h : g.WellFormed t) : g.inside 0 = List.range g.scopes.size := by
  refine List.filter_eq_self.mpr fun x mem => decide_eq_true ?_
  have lt := List.mem_range.mp mem
  obtain ⟨k, reached⟩ := h.isBelow_zero lt
  exact (mem_chain h.parent_lt lt).mpr ⟨k, Nat.lt_succ_of_le
    (Nat.le_trans (Nat.le_add_left k 0) (ancestor?_le h.parent_lt reached)), reached⟩

end Graph
end LoopCapture.Scope
