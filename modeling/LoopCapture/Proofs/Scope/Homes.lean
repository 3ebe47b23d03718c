import LoopCapture.Proofs.Grammar.Placed
import LoopCapture.Proofs.Scope.Alike
import LoopCapture.Proofs.Scope.WellFormed

/-!
# Where references find their bindings

The home of a reference is the first scope outwards that accepts it. Whether a scope accepts a
reference is told by the declarations of the name there. So in graphs that are alike the homes are
the same, but for configured names: what finds nothing in the one graph may be at home in the global
scope of the other.
-/

namespace LoopCapture
open Text (Offset)
open Syntax (Child Node NodeId Tree)

namespace Scope.Graph

variable {g g' : Graph} {t : Tree} {configured : String → Prop} {r : Reference}

/-- Some declaration makes the name stand for what a reference needs, and a reference before the
body of a function is not served by declarations in the body alone. -/
def serves (t : Tree) (bodyStart : Option Offset) (r : Reference)
    (definitions : List Definition) : Bool :=
  (if r.usage.isType then definitions.any (·.kind.isType) else definitions.any (·.kind.isValue)) &&
    !bodyStart.any fun start => r.start < start && definitions.all fun definition =>
      (t.span? definition.name).all fun span => start ≤ span.start

/-- Two references that need the same and stand on the same side of the body are served alike. -/
theorem serves_congr {bodyStart : Option Offset} {r' : Reference}
    (isType : r'.usage.isType = r.usage.isType)
    (side : ∀ start, bodyStart = some start → (r'.start < start ↔ r.start < start))
    (definitions : List Definition) :
    serves t bodyStart r' definitions = serves t bodyStart r definitions := by
  cases bodyStart with
  | none => simp [serves, isType]
  | some start => simp [serves, isType, side start rfl]

theorem isSome_accepts? (g : Graph) (t : Tree) (s : ScopeId) (r : Reference) :
    (g.accepts? t s r).isSome = (g.definitionsAt s r.name).any (serves t (g.bodyStart? t s) r) := by
  rw [accepts?, definitionsAt]
  cases known : g.declared? s r.name with
  | none => rfl
  | some b =>
    cases found : g.bindings[b]? with
    | none => simp [found]
    | some binding =>
      simp only [Option.isSome_filter, Option.any_some, Option.bind_some, found, Option.map_some]
      rfl

/-- What is accepted is the binding of the name. -/
theorem accepts?_eq_some_iff {s : ScopeId} {b : BindingId} :
    g.accepts? t s r = some b ↔
      (g.accepts? t s r).isSome = true ∧ g.declared? s r.name = some b := by
  constructor
  · intro accepted
    exact ⟨by rw [accepted]; rfl, (declared?_of_accepts? t accepted).1⟩
  · rintro ⟨isSome, known⟩
    obtain ⟨b', accepted⟩ := Option.isSome_iff_exists.mp isSome
    rw [accepted, ← known, (declared?_of_accepts? t accepted).1]

theorem bodyStart?_eq_bind_frame? (g : Graph) (t : Tree) (s : ScopeId) :
    g.bodyStart? t s = (g.frame? s).bind fun f =>
      if f.kind = .function then
        ((t.function? (some f.block)).bind (·.body)).bind fun body =>
          (t.span? (some body)).map (·.start)
      else none := by
  simp [bodyStart?, frame?, Option.bind_map]

/-- The first scope outwards that accepts a reference. -/
def home? (g : Graph) (t : Tree) (r : Reference) : Option ScopeId :=
  (g.chain scopeWalkLimit (some r.scope)).find? fun s => (g.accepts? t s r).isSome

theorem home?_eq_some_iff {s : ScopeId} :
    g.home? t r = some s ↔ (g.accepts? t s r).isSome = true ∧ ∃ before after,
      g.chain scopeWalkLimit (some r.scope) = before ++ s :: after ∧
        ∀ inner ∈ before, (g.accepts? t inner r).isSome = false := by
  simp [home?, List.find?_eq_some_iff_append]

/-- A reference means what its home declares under its name. -/
theorem meaning?_eq_some_iff {b : BindingId} :
    g.meaning? t r = some b ↔ ∃ s, g.home? t r = some s ∧ g.declared? s r.name = some b := by
  rw [meaning?, snd_route, List.findSome?_eq_some_iff]
  constructor
  · rintro ⟨before, s, after, way, accepted, refused⟩
    obtain ⟨isSome, known⟩ := accepts?_eq_some_iff.mp accepted
    exact ⟨s, home?_eq_some_iff.mpr ⟨isSome, before, after, way, by simpa using refused⟩, known⟩
  · rintro ⟨s, home, known⟩
    obtain ⟨isSome, before, after, way, refused⟩ := home?_eq_some_iff.mp home
    exact ⟨before, s, after, way, accepts?_eq_some_iff.mpr ⟨isSome, known⟩, by simpa using refused⟩

theorem pairwise_chain (precede : g.ParentsPrecede) (n : Nat) {s : ScopeId}
    (inside : s < g.scopes.size) : (g.chain n (some s)).Pairwise (· > ·) := by
  rw [List.pairwise_iff_getElem]
  intro j k hj hk lt
  have atJ : (g.chain n (some s))[j]? = some (g.chain n (some s))[j] := List.getElem?_eq_getElem hj
  have atK : (g.chain n (some s))[k]? = some (g.chain n (some s))[k] := List.getElem?_eq_getElem hk
  rw [getElem?_chain precede n _ inside] at atJ atK
  split at atJ
  · split at atK
    · obtain ⟨m, rfl⟩ := Nat.exists_eq_add_of_lt lt
      have way := (ancestor?_add j (m + 1) s).symm.trans atK
      rw [atJ] at way
      have le := ancestor?_le precede way
      exact Nat.lt_of_lt_of_le (Nat.lt_add_of_pos_right (Nat.succ_pos m)) le
    · cases atK
  · cases atJ

/-- Tests that agree on all scopes but the global one first succeed at the same scope, if they do so
at all there. -/
theorem find?_of_agree {scopes : List ScopeId} (outwards : scopes.Pairwise (· > ·))
    {test test' : ScopeId → Bool} (agree : ∀ s ≠ 0, test' s = test s) {s : ScopeId}
    (found : scopes.find? test = some s) (zero : s = 0 → test' 0 = true) :
    scopes.find? test' = some s := by
  induction scopes with
  | nil => cases found
  | cons first rest ih =>
    rw [List.find?_cons] at found ⊢
    by_cases outermost : first = 0
    · subst outermost
      have none : rest = [] := List.eq_nil_iff_forall_not_mem.mpr fun x mem =>
        absurd (List.rel_of_pairwise_cons outwards mem) (Nat.not_lt_zero x)
      subst none
      cases passes : test 0 with
      | true =>
        obtain rfl : 0 = s := by simpa [passes] using found
        simp [zero rfl]
      | false => simp [passes] at found
    · rw [agree first outermost]
      split at found
      · rw [← found]
      · exact ih outwards.of_cons found

/-- Tests that agree on all scopes but the global one lead over the same scopes but that one. -/
theorem mem_takeWhile_of_agree {scopes : List ScopeId} (outwards : scopes.Pairwise (· > ·))
    {test test' : ScopeId → Bool} (agree : ∀ s ≠ 0, test' s = test s) {s : ScopeId}
    (inner : s ≠ 0) :
    s ∈ scopes.takeWhile test' ↔ s ∈ scopes.takeWhile test := by
  induction scopes with
  | nil => rfl
  | cons first rest ih =>
    by_cases outermost : first = 0
    · subst outermost
      have none : rest = [] := List.eq_nil_iff_forall_not_mem.mpr fun x mem =>
        absurd (List.rel_of_pairwise_cons outwards mem) (Nat.not_lt_zero x)
      subst none
      simp only [List.takeWhile_cons, List.takeWhile_nil]
      split <;> split <;> simp [inner]
    · rw [List.takeWhile_cons, List.takeWhile_cons, agree first outermost]
      split
      · rw [List.mem_cons, List.mem_cons, ih outwards.of_cons]
      · rfl

theorem chain_congr (frames : ∀ s, g'.frame? s = g.frame? s) (n : Nat) (s : Option ScopeId) :
    g'.chain n s = g.chain n s := by
  have step (g : Graph) (n : Nat) (s : ScopeId) : g.chain (n + 1) (some s) =
      (g.frame? s).elim [] fun f => s :: g.chain n f.parent := by
    rw [chain, frame?]
    cases g.scopes[s]? <;> rfl
  induction n generalizing s with
  | zero => cases s <;> rfl
  | succ n ih =>
    cases s with
    | none => rfl
    | some s =>
      rw [step, step, frames]
      cases g.frame? s with
      | none => rfl
      | some f => exact congrArg (s :: ·) (ih f.parent)

namespace Alike

variable (h : g.Alike configured g')

include h

theorem bodyStart?_eq (s : ScopeId) : g'.bodyStart? t s = g.bodyStart? t s := by
  rw [bodyStart?_eq_bind_frame?, h.frames, bodyStart?_eq_bind_frame?]

theorem isSome_accepts?_eq {s : ScopeId} (free : s ≠ 0 ∨ ¬ configured r.name) :
    (g'.accepts? t s r).isSome = (g.accepts? t s r).isSome := by
  rw [isSome_accepts?, isSome_accepts?, h.bodyStart?_eq, h.definitions s r.name free]

/-- The global scope accepts what is configured. -/
theorem isSome_accepts?_zero (global : ∀ f, g.frame? 0 = some f → f.kind = .global)
    (is : configured r.name) : (g'.accepts? t 0 r).isSome = true := by
  obtain ⟨d, rest, first, kind⟩ := h.implicit r.name is
  have none : g.bodyStart? t 0 = none := by
    rw [bodyStart?_eq_bind_frame?]
    cases found : g.frame? 0 with
    | none => rfl
    | some f => simp [global f found]
  rw [isSome_accepts?, h.bodyStart?_eq, none, first]
  cases r.usage.isType <;> simp [serves, kind, DeclarationKind.isType, DeclarationKind.isValue]

variable (precede : g.ParentsPrecede) (inside : r.scope < g.scopes.size)
  (global : ∀ f, g.frame? 0 = some f → f.kind = .global)

include precede inside

/-- A home that is not the global scope, or that of a name that is not configured, is one in both
graphs. -/
theorem home?_iff {s : ScopeId} (free : s ≠ 0 ∨ ¬ configured r.name) :
    g'.home? t r = some s ↔ g.home? t r = some s := by
  have outwards := pairwise_chain precede scopeWalkLimit inside
  have same := h.isSome_accepts?_eq (t := t) free
  constructor <;> intro home <;> have accepted := (home?_eq_some_iff.mp home).1
  · rw [home?, chain_congr h.frames] at home
    refine find?_of_agree outwards (fun s inner => (h.isSome_accepts?_eq (.inl inner)).symm) home ?_
    rintro rfl
    exact same ▸ accepted
  · rw [home?, chain_congr h.frames]
    refine find?_of_agree outwards (fun s inner => h.isSome_accepts?_eq (.inl inner)) home ?_
    rintro rfl
    exact same ▸ accepted

include global in
/-- What finds its home in the global scope still does when more is configured. -/
theorem home?_zero (home : g.home? t r = some 0) : g'.home? t r = some 0 := by
  by_cases is : configured r.name
  · rw [home?] at home ⊢
    rw [chain_congr h.frames]
    exact find?_of_agree (pairwise_chain precede scopeWalkLimit inside)
      (fun s inner => h.isSome_accepts?_eq (.inl inner)) home
      fun _ => h.isSome_accepts?_zero global is
  · exact (h.home?_iff precede inside (.inr is)).mpr home

/-- What finds its home in the global scope when more is configured did so before, if it was
accepted there. -/
theorem home?_zero_of_accepts (home : g'.home? t r = some 0)
    (accepted : (g.accepts? t 0 r).isSome = true) : g.home? t r = some 0 := by
  rw [home?] at home ⊢
  rw [chain_congr h.frames] at home
  exact find?_of_agree (pairwise_chain precede scopeWalkLimit inside)
    (fun s inner => (h.isSome_accepts?_eq (.inl inner)).symm) home fun _ => accepted

/-- What is configured makes no difference to which scopes a reference passes through, the global
one apart. -/
theorem mem_passed_iff {s : ScopeId} (inner : s ≠ 0) : s ∈ g'.passed t r ↔ s ∈ g.passed t r := by
  rw [passed, passed, fst_route, fst_route, chain_congr h.frames]
  refine mem_takeWhile_of_agree (pairwise_chain precede scopeWalkLimit inside) (fun s inner => ?_)
    inner
  have same := h.isSome_accepts?_eq (t := t) (r := r) (.inl inner)
  cases is : g.accepts? t s r <;> cases is' : g'.accepts? t s r <;> simp_all

end Alike

end Scope.Graph
end LoopCapture
