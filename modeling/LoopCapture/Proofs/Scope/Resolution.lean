import LoopCapture.Scope.Resolution
import LoopCapture.Proofs.Scope.Chain
import LoopCapture.Proofs.Scope.Recording

/-!
# What references mean

Resolution only adds to a graph: which scopes a reference passes through, what it means, and which
references mean a binding. All three are told by the graph before it, so the order in which the
references are resolved shows in the order of the lists alone.
-/

namespace LoopCapture.Scope.Graph
open Syntax (Tree)

/-- A graph without what resolution adds to it. -/
def bare (g : Graph) : Graph :=
  { g with
    scopes := g.scopes.map fun scope => { scope with through := #[] }
    bindings := g.bindings.map fun binding => { binding with references := #[] }
    references := g.references.map fun r => { r with resolved := none } }

theorem map_modify_of_forall {α β : Type} {forget : α → β} {change : α → α}
    (h : ∀ a, forget (change a) = forget a) (xs : Array α) (i : Nat) :
    (xs.modify i change).map forget = xs.map forget := by
  ext j
  · simp
  · simp only [Array.getElem_map, Array.getElem_modify]
    split <;> simp [h]

variable (g : Graph) (t : Tree)

@[simp] theorem bare_passThrough (id : ReferenceId) (s : ScopeId) :
    (g.passThrough id s).bare = g.bare := by
  simp [bare, passThrough, map_modify_of_forall]

@[simp] theorem bare_resolveTo (id : ReferenceId) (b : BindingId) :
    (g.resolveTo id b).bare = g.bare := by
  simp [bare, resolveTo, map_modify_of_forall]

theorem bare_foldl_passThrough (id : ReferenceId) (passed : List ScopeId) :
    (passed.foldl (·.passThrough id) g).bare = g.bare := by
  induction passed generalizing g with
  | nil => rfl
  | cons s passed ih => simp [ih]

@[simp] theorem bare_resolveReference (id : ReferenceId) :
    (resolveReference t g id).bare = g.bare := by
  unfold resolveReference
  split
  · rfl
  · simp only
    cases (g.route t _ _).2 <;> simp [bare_foldl_passThrough]

theorem getElem?_scopes_bare (s : ScopeId) :
    g.bare.scopes[s]? = g.scopes[s]?.map fun scope => { scope with through := #[] } := by
  simp [bare]

theorem parentOf_bare (s : ScopeId) : g.bare.parentOf s = g.parentOf s := by
  rw [parentOf, getElem?_scopes_bare, Option.bind_map]
  rfl

theorem declared?_bare (s : ScopeId) (name : String) :
    g.bare.declared? s name = g.declared? s name := by
  rw [declared?, getElem?_scopes_bare, Option.bind_map]
  rfl

theorem chain_bare (n : Nat) (s : Option ScopeId) : g.bare.chain n s = g.chain n s := by
  induction n generalizing s with
  | zero => cases s <;> rfl
  | succ n ih =>
    cases s with
    | none => rfl
    | some s =>
      simp only [chain, getElem?_scopes_bare]
      cases g.scopes[s]? <;> simp [ih]

theorem bodyStart?_bare (s : ScopeId) : g.bare.bodyStart? t s = g.bodyStart? t s := by
  rw [bodyStart?, getElem?_scopes_bare, Option.bind_map]
  rfl

theorem accepts?_bare (s : ScopeId) (r : Reference) : g.bare.accepts? t s r = g.accepts? t s r := by
  have binding (b : BindingId) (p : Binding → Bool)
      (h : ∀ binding, p { binding with references := #[] } = p binding) :
      g.bare.bindings[b]?.any p = g.bindings[b]?.any p := by
    cases found : g.bindings[b]? <;> simp [bare, found, h]
  simp only [accepts?, declared?_bare, bodyStart?_bare]
  congr 1
  funext b
  exact binding b _ fun _ => rfl

theorem route_bare (r : Reference) (c : List ScopeId) : g.bare.route t r c = g.route t r c := by
  induction c with
  | nil => rfl
  | cons s c ih => simp only [route, accepts?_bare, ih]

def passed (r : Reference) : List ScopeId :=
  (g.route t r (g.chain scopeWalkLimit (some r.scope))).1

/-- The binding that a reference comes to mean, if any. -/
def meaning? (r : Reference) : Option BindingId :=
  (g.route t r (g.chain scopeWalkLimit (some r.scope))).2

theorem passed_congr {g g' : Graph} (same : g'.bare = g.bare) (r : Reference) :
    g'.passed t r = g.passed t r := by
  rw [passed, passed, ← route_bare, ← chain_bare, same, route_bare, chain_bare]

theorem meaning?_congr {g g' : Graph} (same : g'.bare = g.bare) (r : Reference) :
    g'.meaning? t r = g.meaning? t r := by
  rw [meaning?, meaning?, ← route_bare, ← chain_bare, same, route_bare, chain_bare]

theorem fst_route (r : Reference) (c : List ScopeId) :
    (g.route t r c).1 = c.takeWhile fun s => (g.accepts? t s r).isNone := by
  induction c with
  | nil => rfl
  | cons s c ih => cases h : g.accepts? t s r <;> simp [route, h, ih]

theorem snd_route (r : Reference) (c : List ScopeId) :
    (g.route t r c).2 = c.findSome? fun s => g.accepts? t s r := by
  induction c with
  | nil => rfl
  | cons s c ih => cases h : g.accepts? t s r <;> simp [route, h, ih]

/-- A way ends at the first scope that accepts the reference. -/
theorem route_of_accepts {r : Reference} {scopes : List ScopeId} {k : Nat} {s : ScopeId}
    {b : BindingId}
    (reached : scopes[k]? = some s) (accepted : g.accepts? t s r = some b)
    (refused : ∀ j < k, ∀ s', scopes[j]? = some s' → g.accepts? t s' r = none) :
    g.route t r scopes = (scopes.take k, some b) := by
  induction scopes generalizing k with
  | nil => simp at reached
  | cons first rest ih =>
    cases k with
    | zero =>
      obtain rfl : first = s := by simpa using reached
      simp [route, accepted]
    | succ k =>
      have inner := ih (by simpa using reached) fun j lt s' at_ =>
        refused (j + 1) (Nat.succ_lt_succ lt) s' (by simpa using at_)
      simp [route, refused 0 (Nat.succ_pos k) first rfl, inner]

/-- A way along which no scope accepts the reference ends nowhere. -/
theorem route_of_refuses {r : Reference} {c : List ScopeId}
    (refused : ∀ s ∈ c, g.accepts? t s r = none) : g.route t r c = (c, none) := by
  induction c with
  | nil => rfl
  | cons s c ih =>
    have inner := ih fun s' mem => refused s' (List.mem_cons_of_mem _ mem)
    simp [route, refused s List.mem_cons_self, inner]

/-- What a reference means so far does not show in its way. -/
theorem route_withResolved (r : Reference) (b : Option BindingId) (c : List ScopeId) :
    g.route t { r with resolved := b } c = g.route t r c :=
  Prod.ext (by rw [fst_route, fst_route]; rfl) (by rw [snd_route, snd_route]; rfl)

theorem passed_withResolved (r : Reference) (b : Option BindingId) :
    g.passed t { r with resolved := b } = g.passed t r :=
  congrArg Prod.fst (route_withResolved g t r b _)

theorem meaning?_withResolved (r : Reference) (b : Option BindingId) :
    g.meaning? t { r with resolved := b } = g.meaning? t r :=
  congrArg Prod.snd (route_withResolved g t r b _)

theorem passed_sublist (r : Reference) :
    (g.passed t r).Sublist (g.chain scopeWalkLimit (some r.scope)) := by
  rw [passed, fst_route]
  exact List.takeWhile_sublist _

variable {g}

/-- What a scope accepts is a binding that it declares under the name. -/
theorem declared?_of_accepts? {s : ScopeId} {r : Reference} {b : BindingId}
    (h : g.accepts? t s r = some b) : g.declared? s r.name = some b ∧ b < g.bindings.size := by
  obtain ⟨known, accepted⟩ := Option.filter_eq_some_iff.mp h
  obtain ⟨binding, found, -⟩ := (Option.any_eq_true _ _).mp accepted
  exact ⟨known, (Array.getElem?_eq_some_iff.mp found).1⟩

theorem meaning?_lt {r : Reference} {b : BindingId} (h : g.meaning? t r = some b) :
    b < g.bindings.size := by
  rw [meaning?, snd_route] at h
  obtain ⟨s, -, accepted⟩ := List.exists_of_findSome?_eq_some h
  exact (declared?_of_accepts? t accepted).2

theorem lt_of_mem_passed (precede : g.ParentsPrecede) {r : Reference} {s : ScopeId}
    (inside : r.scope < g.scopes.size) (h : s ∈ g.passed t r) : s < g.scopes.size := by
  obtain ⟨k, -, found⟩ := (mem_chain precede inside).mp ((g.passed_sublist t r).mem h)
  exact Nat.lt_of_le_of_lt (Nat.le_of_add_right_le (ancestor?_le precede found)) inside

variable (g)

theorem through_passThrough (id : ReferenceId) (s outer : ScopeId) :
    (g.passThrough id s).through outer =
      g.through outer ++ if outer = s ∧ s < g.scopes.size then [id] else [] := by
  simp only [through, passThrough, Array.getElem?_modify]
  grind

@[simp] theorem through_resolveTo (id : ReferenceId) (b : BindingId) (s : ScopeId) :
    (g.resolveTo id b).through s = g.through s :=
  rfl

theorem referencesOf_resolveTo (id : ReferenceId) (b other : BindingId) :
    (g.resolveTo id b).referencesOf other =
      g.referencesOf other ++ if other = b ∧ b < g.bindings.size then [id] else [] := by
  simp only [referencesOf, resolveTo, Array.getElem?_modify]
  grind

theorem through_foldl_passThrough (id : ReferenceId) (s : ScopeId) {passed : List ScopeId}
    (nodup : passed.Nodup) (inside : ∀ s ∈ passed, s < g.scopes.size) :
    (passed.foldl (·.passThrough id) g).through s =
      g.through s ++ if s ∈ passed then [id] else [] := by
  induction passed generalizing g with
  | nil => simp
  | cons first rest ih =>
    have size : (g.passThrough id first).scopes.size = g.scopes.size := by simp [passThrough]
    rw [List.nodup_cons] at nodup
    rw [List.foldl_cons, ih _ nodup.2 (fun s h => size ▸ inside s (List.mem_cons_of_mem _ h)),
      through_passThrough]
    have here := inside first List.mem_cons_self
    by_cases first_eq : s = first
    · subst first_eq
      simp [here, nodup.1]
    · simp [first_eq]

variable {g} {id : ReferenceId} {r : Reference}

theorem resolveReference_of_made (made : g.references[id]? = some r) :
    resolveReference t g id =
      (g.meaning? t r).elim ((g.passed t r).foldl (·.passThrough id) g)
        (((g.passed t r).foldl (·.passThrough id) g).resolveTo id) := by
  simp only [resolveReference, made]
  rfl

theorem through_resolveReference (precede : g.ParentsPrecede)
    (made : g.references[id]? = some r) (inside : r.scope < g.scopes.size) (s : ScopeId) :
    (resolveReference t g id).through s =
      g.through s ++ if s ∈ g.passed t r then [id] else [] := by
  have nodup := (nodup_chain precede scopeWalkLimit inside).sublist (g.passed_sublist t r)
  have way := g.through_foldl_passThrough id s nodup fun s => lt_of_mem_passed t precede inside
  rw [resolveReference_of_made t made]
  cases g.meaning? t r <;> simpa using way

theorem bindings_foldl_passThrough (id : ReferenceId) (passed : List ScopeId) (g : Graph) :
    (passed.foldl (·.passThrough id) g).bindings = g.bindings := by
  induction passed generalizing g with
  | nil => rfl
  | cons s passed ih => rw [List.foldl_cons, ih]; rfl

theorem references_foldl_passThrough (id : ReferenceId) (passed : List ScopeId) (g : Graph) :
    (passed.foldl (·.passThrough id) g).references = g.references := by
  induction passed generalizing g with
  | nil => rfl
  | cons s passed ih => rw [List.foldl_cons, ih]; rfl

theorem referencesOf_resolveReference (made : g.references[id]? = some r) (b : BindingId) :
    (resolveReference t g id).referencesOf b =
      g.referencesOf b ++ if g.meaning? t r = some b then [id] else [] := by
  have same := bindings_foldl_passThrough id (g.passed t r) g
  rw [resolveReference_of_made t made]
  cases meant : g.meaning? t r with
  | none => simp [referencesOf, same]
  | some target =>
    have known := meaning?_lt t meant
    simp only [Option.elim_some, referencesOf_resolveTo, same]
    simp [referencesOf, same, known, eq_comm]

theorem references_resolveReference (made : g.references[id]? = some r) (other : ReferenceId) :
    (resolveReference t g id).references[other]? =
      if other = id then some { r with resolved := (g.meaning? t r).or r.resolved }
      else g.references[other]? := by
  have same := references_foldl_passThrough id (g.passed t r) g
  rw [resolveReference_of_made t made]
  cases g.meaning? t r with
  | none =>
    by_cases here : other = id <;> simp [same, here, made]
  | some target =>
    by_cases here : other = id
    · simp [resolveTo, same, here, made, Array.getElem?_modify]
    · simp [resolveTo, same, here, Array.getElem?_modify, Ne.symm here]

theorem parentOf_congr {g g' : Graph} (same : g'.bare = g.bare) (s : ScopeId) :
    g'.parentOf s = g.parentOf s := by
  rw [← parentOf_bare, same, parentOf_bare]

theorem bindingScope_congr {g g' : Graph} (same : g'.bare = g.bare) (b : BindingId) :
    g'.bindings[b]?.map (·.scope) = g.bindings[b]?.map (·.scope) := by
  simpa [bare, Function.comp_def] using
    congrArg (fun g : Graph => g.bindings[b]?.map (·.scope)) same

theorem size_congr {g g' : Graph} (same : g'.bare = g.bare) :
    g'.scopes.size = g.scopes.size := by
  simpa [bare] using congrArg (·.scopes.size) same

def resolveFirst (g : Graph) (t : Tree) (n : Nat) : Graph :=
  (List.range n).foldl (resolveReference t) g

theorem resolveFirst_succ (n : Nat) :
    g.resolveFirst t (n + 1) = resolveReference t (g.resolveFirst t n) n := by
  simp [resolveFirst, List.range_succ]

theorem bare_resolveFirst (n : Nat) : (g.resolveFirst t n).bare = g.bare := by
  induction n with
  | zero => rfl
  | succ n ih => rw [resolveFirst_succ, bare_resolveReference, ih]

/-- The references that were resolved mean what the graph told before, the others mean nothing. -/
theorem references_resolveFirst (sound : g.Sound) {n : Nat} (le : n ≤ g.references.size)
    (id : ReferenceId) :
    (g.resolveFirst t n).references[id]? =
      g.references[id]?.map fun r =>
        if id < n then { r with resolved := g.meaning? t r } else r := by
  induction n generalizing id with
  | zero => simp [resolveFirst]
  | succ n ih =>
    have ih (id : ReferenceId) := ih (Nat.le_of_succ_le le) id
    have made : g.references[n]? = some g.references[n] := Array.getElem?_eq_getElem le
    have next : (g.resolveFirst t n).references[n]? = some g.references[n] := by
      rw [ih]
      simp [made]
    rw [resolveFirst_succ, references_resolveReference t next,
      meaning?_congr t (bare_resolveFirst t n)]
    by_cases here : id = n
    · subst here
      simp [made, (sound.referenced id _ made).2]
    · rw [if_neg here, ih]
      have order : id < n + 1 ↔ id < n :=
        Nat.lt_succ_iff_lt_or_eq.trans (or_iff_left here)
      simp only [order]

def passes (g : Graph) (t : Tree) (s : ScopeId) (id : ReferenceId) : Bool :=
  g.references[id]?.any fun r => s ∈ g.passed t r

def means (g : Graph) (t : Tree) (b : BindingId) (id : ReferenceId) : Bool :=
  g.references[id]?.any fun r => g.meaning? t r = some b

theorem next_resolveFirst (sound : g.Sound) {n : Nat} (lt : n < g.references.size) :
    (g.resolveFirst t n).references[n]? = some g.references[n] := by
  simp [references_resolveFirst t sound (Nat.le_of_lt lt), lt]

/-- The references that pass through a scope, in the order of their creation. -/
theorem through_resolveFirst (sound : g.Sound) {n : Nat} (le : n ≤ g.references.size)
    (s : ScopeId) :
    (g.resolveFirst t n).through s = (List.range n).filter (g.passes t s) := by
  induction n with
  | zero => simpa [resolveFirst] using sound.through_eq s
  | succ n ih =>
    have same := bare_resolveFirst t (g := g) n
    have precede : (g.resolveFirst t n).ParentsPrecede := fun s p => by
      rw [parentOf_congr same]
      exact sound.parent_lt s p
    have made : g.references[n]? = some g.references[n] := Array.getElem?_eq_getElem le
    have inside : g.references[n].scope < (g.resolveFirst t n).scopes.size := by
      rw [size_congr same]
      exact (sound.referenced n _ made).1
    rw [resolveFirst_succ, through_resolveReference t precede (next_resolveFirst t sound le) inside,
      passed_congr t same, ih (Nat.le_of_succ_le le), List.range_succ, List.filter_append]
    by_cases through : s ∈ g.passed t g.references[n] <;> simp [passes, made, through]

/-- The references that mean a binding, in the order of their creation. -/
theorem referencesOf_resolveFirst (sound : g.Sound) {n : Nat} (le : n ≤ g.references.size)
    (b : BindingId) :
    (g.resolveFirst t n).referencesOf b = (List.range n).filter (g.means t b) := by
  induction n with
  | zero =>
    cases found : g.bindings[b]? with
    | none => simp [resolveFirst, referencesOf, found]
    | some binding => simp [resolveFirst, referencesOf, found, sound.unreferenced b binding found]
  | succ n ih =>
    have made : g.references[n]? = some g.references[n] := Array.getElem?_eq_getElem le
    rw [resolveFirst_succ, referencesOf_resolveReference t (next_resolveFirst t sound le),
      meaning?_congr t (bare_resolveFirst t n), ih (Nat.le_of_succ_le le), List.range_succ,
      List.filter_append]
    by_cases meant : g.meaning? t g.references[n] = some b <;> simp [means, made, meant]

end LoopCapture.Scope.Graph
