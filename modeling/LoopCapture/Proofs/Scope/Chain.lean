import LoopCapture.Scope.Graph

/-!
# The scopes around a scope

Where parents precede their children, the way outwards from a scope meets no scope twice. A chain is
such a way up to a cut.
-/

namespace LoopCapture.Scope.Graph

/-- The scope that is so many steps outwards from a scope. -/
def ancestor? (g : Graph) : Nat → ScopeId → Option ScopeId
  | 0, s => some s
  | k + 1, s => (g.parentOf s).bind (g.ancestor? k)

def IsBelow (g : Graph) (inner outer : ScopeId) : Prop := ∃ k, g.ancestor? k inner = some outer

/-- Every scope comes after the scope around it. -/
def ParentsPrecede (g : Graph) : Prop := ∀ s p : ScopeId, g.parentOf s = some p → p < s

variable {g : Graph}

@[simp] theorem ancestor?_zero (s : ScopeId) : g.ancestor? 0 s = some s :=
  rfl

theorem ancestor?_add (j k : Nat) (s : ScopeId) :
    g.ancestor? (j + k) s = (g.ancestor? j s).bind (g.ancestor? k) := by
  induction j generalizing s with
  | zero => simp
  | succ j ih =>
    rw [Nat.succ_add_eq_add_succ, Nat.add_succ, ancestor?, ancestor?]
    cases g.parentOf s with
    | none => rfl
    | some p => exact ih p

theorem IsBelow.trans {inner middle outer : ScopeId} (h : g.IsBelow inner middle)
    (h' : g.IsBelow middle outer) : g.IsBelow inner outer := by
  obtain ⟨j, hj⟩ := h
  obtain ⟨k, hk⟩ := h'
  exact ⟨j + k, by rw [ancestor?_add, hj]; exact hk⟩

/-- Each step outwards leads to an earlier place. -/
theorem ancestor?_le (h : g.ParentsPrecede) {k : Nat} {s outer : ScopeId}
    (found : g.ancestor? k s = some outer) : outer + k ≤ s := by
  induction k generalizing s with
  | zero => exact Nat.le_of_eq (Option.some.inj found).symm
  | succ k ih =>
    obtain ⟨p, parent, rest⟩ := Option.bind_eq_some_iff.mp found
    have above := ih rest
    exact Nat.le_trans (Nat.succ_le_succ above) (h s p parent)

theorem ancestor?_inj (h : g.ParentsPrecede) {j k : Nat} {s outer : ScopeId}
    (hj : g.ancestor? j s = some outer) (hk : g.ancestor? k s = some outer) : j = k := by
  have noReturn {m n : Nat} (hm : g.ancestor? m s = some outer)
      (hn : g.ancestor? (m + n) s = some outer) : n = 0 := by
    rw [ancestor?_add, hm] at hn
    exact Nat.le_zero.mp (Nat.le_of_add_le_add_left (ancestor?_le h hn))
  rcases Nat.le_total j k with le | le
  · obtain ⟨n, rfl⟩ := Nat.exists_eq_add_of_le le
    simp [noReturn hj hk]
  · obtain ⟨n, rfl⟩ := Nat.exists_eq_add_of_le le
    simp [noReturn hk hj]

theorem IsBelow.le (h : g.ParentsPrecede) {inner outer : ScopeId} (below : g.IsBelow inner outer) :
    outer ≤ inner := by
  obtain ⟨k, reached⟩ := below
  exact Nat.le_trans (Nat.le_add_right outer k) (ancestor?_le h reached)

theorem isBelow_congr {g' : Graph} (same : ∀ s, g'.parentOf s = g.parentOf s)
    {inner outer : ScopeId} : g'.IsBelow inner outer ↔ g.IsBelow inner outer := by
  have steps (k : Nat) (s : ScopeId) : g'.ancestor? k s = g.ancestor? k s := by
    induction k generalizing s with
    | zero => rfl
    | succ k ih =>
      rw [ancestor?, ancestor?, same]
      exact Option.bind_congr fun p _ => ih p
  simp only [IsBelow, steps]

/-- What a scope is below is told by the parents of the scopes up to it. -/
theorem IsBelow.of_parents {g' : Graph} (h : g.ParentsPrecede) {n : Nat}
    (same : ∀ s < n, g'.parentOf s = g.parentOf s) {inner outer : ScopeId} (lt : inner < n)
    (below : g.IsBelow inner outer) : g'.IsBelow inner outer := by
  obtain ⟨k, reached⟩ := below
  refine ⟨k, ?_⟩
  induction k generalizing inner with
  | zero => exact reached
  | succ k ih =>
    obtain ⟨p, parent, rest⟩ := Option.bind_eq_some_iff.mp reached
    have above := ih (Nat.lt_trans (h inner p parent) lt) rest
    exact Option.bind_eq_some_iff.mpr ⟨p, (same inner lt).trans parent, above⟩

theorem exists_child_of_isBelow {inner outer : ScopeId} (below : g.IsBelow inner outer)
    (other : inner ≠ outer) : ∃ child, g.parentOf child = some outer ∧ g.IsBelow inner child := by
  obtain ⟨k, reached⟩ := below
  induction k generalizing inner with
  | zero => exact absurd (Option.some.inj reached) other
  | succ k ih =>
    obtain ⟨p, parent, rest⟩ := Option.bind_eq_some_iff.mp reached
    by_cases here : p = outer
    · exact ⟨inner, here ▸ parent, 0, rfl⟩
    · obtain ⟨child, above, j, way⟩ := ih here rest
      exact ⟨child, above, j + 1, Option.bind_eq_some_iff.mpr ⟨p, parent, way⟩⟩

/-- Of two scopes around one scope, one is below the other. -/
theorem IsBelow.total {inner a b : ScopeId} (h : g.IsBelow inner a) (h' : g.IsBelow inner b) :
    g.IsBelow a b ∨ g.IsBelow b a := by
  obtain ⟨j, hj⟩ := h
  obtain ⟨k, hk⟩ := h'
  rcases Nat.le_total j k with le | le
  · obtain ⟨n, rfl⟩ := Nat.exists_eq_add_of_le le
    rw [ancestor?_add, hj] at hk
    exact .inl ⟨n, hk⟩
  · obtain ⟨n, rfl⟩ := Nat.exists_eq_add_of_le le
    rw [ancestor?_add, hk] at hj
    exact .inr ⟨n, hj⟩

/-- A chain has the scopes that fewer steps outwards than its cut lead to, in this order. -/
theorem getElem?_chain (h : g.ParentsPrecede) (n k : Nat) {s : ScopeId}
    (inside : s < g.scopes.size) :
    (g.chain n (some s))[k]? = if k < n then g.ancestor? k s else none := by
  induction n generalizing k s with
  | zero => simp [chain]
  | succ n ih =>
    have here : g.scopes[s]? = some g.scopes[s] := Array.getElem?_eq_getElem inside
    have parent : g.parentOf s = g.scopes[s].parent := by simp [parentOf, here]
    simp only [chain, here]
    cases k with
    | zero => simp
    | succ k =>
      rw [List.getElem?_cons_succ, ancestor?, ← parent]
      cases outer : g.parentOf s with
      | none => cases n <;> simp [chain]
      | some p =>
        have lower : p < g.scopes.size := Nat.lt_trans (h s p outer) inside
        rw [ih k lower]
        simp

theorem mem_chain (h : g.ParentsPrecede) {n : Nat} {s outer : ScopeId}
    (inside : s < g.scopes.size) :
    outer ∈ g.chain n (some s) ↔ ∃ k < n, g.ancestor? k s = some outer := by
  simp only [List.mem_iff_getElem?, getElem?_chain h n _ inside]
  constructor
  · rintro ⟨k, found⟩
    split at found
    · exact ⟨k, ‹_›, found⟩
    · cases found
  · rintro ⟨k, lt, found⟩
    exact ⟨k, by simpa [lt] using found⟩

/-- A chain that is cut earlier is the start of the chain. -/
theorem take_chain (h : g.ParentsPrecede) {k n : Nat} (le : k ≤ n) {s : ScopeId}
    (inside : s < g.scopes.size) : (g.chain n (some s)).take k = g.chain k (some s) := by
  apply List.ext_getElem?
  intro j
  rw [List.getElem?_take, getElem?_chain h n j inside, getElem?_chain h k j inside]
  by_cases lt : j < k
  · rw [if_pos lt, if_pos lt, if_pos (Nat.lt_of_lt_of_le lt le)]
  · rw [if_neg lt, if_neg lt]

/-- No scope is met twice. -/
theorem nodup_chain (h : g.ParentsPrecede) (n : Nat) {s : ScopeId} (inside : s < g.scopes.size) :
    (g.chain n (some s)).Nodup := by
  rw [List.Nodup, List.pairwise_iff_getElem]
  intro j k hj hk lt same
  have atJ : (g.chain n (some s))[j]? = some (g.chain n (some s))[j] := List.getElem?_eq_getElem hj
  have atK : (g.chain n (some s))[k]? = some (g.chain n (some s))[k] := List.getElem?_eq_getElem hk
  rw [getElem?_chain h n _ inside] at atJ atK
  split at atJ
  · split at atK
    · exact Nat.ne_of_lt lt (ancestor?_inj h atJ (same ▸ atK))
    · cases atK
  · cases atJ

end LoopCapture.Scope.Graph
