import LoopCapture.Proofs.Scope.Licit

/-!
# Nodes and the scopes they opened

A program of steps leaves the scopes opened before it as they are. A node leads to the last of the
scopes that it opened, and after the program to another one than before only if that is new.
-/

namespace LoopCapture.Scope
open Syntax (Child NodeId Tree)

namespace Recording

/-- The nodes lead to the scopes that they opened, to the last one each. -/
structure Housed (r : Recording) : Prop where
  sound : r.Sound
  opened : ∀ node s, r.graph.nodeScope? (some node) = some s →
    ∃ f, r.graph.frame? s = some f ∧ f.block = node
  last : ∀ s f, r.graph.frame? s = some f → f.block < r.graph.nodeScopes.size →
    ∃ s', r.graph.nodeScope? (some f.block) = some s' ∧ s ≤ s'

variable {r r' : Recording}

theorem housed_empty (t : Tree) : Housed { graph := .empty t } where
  sound := ⟨Graph.sound_empty t, by simp⟩
  opened node s is := by
    rw [Graph.nodeScope?, Graph.empty] at is
    grind
  last s f found := by simp [Graph.frame?, Graph.empty] at found

theorem Housed.enter (h : r.Housed) (kind : ScopeKind) (block : NodeId) :
    (r.enter kind block).Housed where
  sound := h.sound.enter kind block
  opened node s is := by
    simp only [Recording.enter, Graph.nodeScope?_addScope, Graph.frame?_addScope] at is ⊢
    split at is
    · rename_i here
      obtain rfl := Option.some.inj is
      exact ⟨_, if_pos rfl, here.1.symm⟩
    · obtain ⟨f, found, same⟩ := h.opened node s is
      exact ⟨f, (if_neg (Nat.ne_of_lt (Graph.lt_size_of_frame? found))).trans found, same⟩
  last s f found inside := by
    have size : (r.enter kind block).graph.nodeScopes.size = r.graph.nodeScopes.size := by
      simp [Recording.enter, Graph.addScope]
    rw [size] at inside
    have le : s ≤ r.graph.scopes.size :=
      Nat.le_of_lt_succ (by simpa [Recording.enter] using Graph.lt_size_of_frame? found)
    simp only [Recording.enter, Graph.nodeScope?_addScope, Graph.frame?_addScope] at found ⊢
    split
    · exact ⟨_, rfl, le⟩
    · rename_i other
      split at found
      · obtain rfl := Option.some.inj found
        exact absurd ⟨rfl, inside⟩ other
      · exact h.last s f found inside

/-- A recording with the same scopes leads to them as before. -/
theorem Housed.of_scopes (h : r.Housed) (sound : r'.Sound)
    (frames : ∀ s, r'.graph.frame? s = r.graph.frame? s)
    (nodes : r'.graph.nodeScopes = r.graph.nodeScopes) : r'.Housed where
  sound := sound
  opened node s is := by
    rw [Graph.nodeScope?, nodes] at is
    obtain ⟨f, found, same⟩ := h.opened node s is
    exact ⟨f, (frames s).trans found, same⟩
  last s f found inside := by
    rw [Graph.nodeScope?, nodes]
    exact h.last s f ((frames s).symm.trans found) (nodes ▸ inside)

theorem Grows.isBelow (h : Grows r r') (sound : r.Sound) {inner outer : ScopeId}
    (lt : inner < r.graph.scopes.size) (below : r.graph.IsBelow inner outer) :
    r'.graph.IsBelow inner outer :=
  below.of_parents sound.graph.parent_lt h.parentOf_eq lt

end Recording

namespace Record

variable {α : Type} {r : Recording}

theorem housed_run (p : Record α) (h : r.Housed) : (p.run r).2.Housed := by
  induction p generalizing r with
  | done a => exact h
  | andThen p next ihp ihn => exact ihn _ (ihp h)
  | observe look => exact h
  | define s name definition owningLoop =>
    exact h.of_scopes (sound_run (.define s name definition owningLoop) h.sound)
      (r.frame?_define s name definition owningLoop)
      (r.nodeScopes_define s name definition owningLoop)
  | permit b writable =>
    exact h.of_scopes (sound_run (.permit b writable) h.sound) (fun _ => rfl) rfl
  | use node name start usage =>
    exact h.of_scopes (sound_run (.use node name start usage) h.sound)
      (r.frame?_use node name start usage) (r.nodeScopes_use node name start usage)
  | inScope kind block step ih =>
    have inner := ih r.graph.scopes.size (h.enter kind block)
    exact ⟨sound_run (.inScope kind block step) h.sound, inner.opened, inner.last⟩

/-- The scope of a node after a program is the one before or one that the program opened. -/
theorem nodeScope?_run (p : Record α) {node : NodeId} {s : ScopeId}
    (is : (p.run r).2.graph.nodeScope? (some node) = some s) :
    r.graph.nodeScope? (some node) = some s ∨ r.graph.scopes.size ≤ s := by
  induction p generalizing r with
  | done a => exact .inl is
  | andThen p next ihp ihn =>
    obtain before | new := ihn _ is
    · exact ihp before
    · exact .inr (Nat.le_trans (p.grows_run r).size_le new)
  | observe look => exact .inl is
  | define s' name definition owningLoop =>
    simp only [run, Graph.nodeScope?, Recording.nodeScopes_define] at is
    exact .inl is
  | permit b writable => exact .inl is
  | use other name start usage =>
    simp only [run, Graph.nodeScope?, Recording.nodeScopes_use] at is
    exact .inl is
  | inScope kind block step ih =>
    obtain before | new := ih _ (r := r.enter kind block) is
    · simp only [Recording.enter, Graph.nodeScope?_addScope] at before
      split at before
      · exact .inr (Nat.le_of_eq (Option.some.inj before))
      · exact .inl before
    · refine .inr (Nat.le_trans ?_ new)
      simp [Recording.enter]

/-- The scope that a step is run inside of stays as it was opened. -/
theorem frame?_run_inScope (kind : ScopeKind) (block : NodeId) (step : ScopeId → Record Unit)
    (r : Recording) : ((inScope kind block step).run r).2.graph.frame? r.graph.scopes.size =
      some ⟨kind, block, r.current, r.graph.ownerFor kind r.current⟩ := by
  have inside := (step r.graph.scopes.size).frame?_run (r := r.enter kind block)
    (s := r.graph.scopes.size) (by simp [Recording.enter])
  exact inside.trans (by simp [Recording.enter, Graph.frame?_addScope])

end Record
end LoopCapture.Scope
