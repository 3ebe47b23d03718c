import LoopCapture.Proofs.Scope.Parameters

/-!
# Meaning and look-up

A reference to a value means what looking its name up from its scope finds. The two part at the
scope of a function only: a reference in front of the body passes over a binding that is declared in
the body alone, and looking the name up finds it.
-/

namespace LoopCapture
open Syntax (Tree)

namespace Scope.Graph

variable {g : Graph} {t : Tree} {r : Reference} {b : BindingId}

/-- A reference stands in front of the body of a function around it, and no declaration of the
binding in the scope of that function names an identifier in front of the body. -/
def HidesFrom (g : Graph) (t : Tree) (r : Reference) (b : BindingId) : Prop :=
  ∃ s scope binding f body span, g.IsBelow r.scope s ∧ g.declared? s r.name = some b ∧
    g.bindings[b]? = some binding ∧ g.scopes[s]? = some scope ∧ scope.kind = .function ∧
    t.function? (some scope.block) = some f ∧ f.body = some body ∧ t.span? (some body) = some span ∧
    r.start < span.start ∧ ∀ d ∈ binding.definitions, ∀ name, t.span? d.name = some name →
      ¬ name.start < span.start

/-- The binding of a value that a scope itself has under a name. -/
def valueAt? (g : Graph) (s : ScopeId) (name : String) : Option BindingId :=
  (g.declared? s name).filter fun b => g.bindings[b]?.any Binding.isValue

theorem valueAt?_eq_some_iff {s : ScopeId} {name : String} : g.valueAt? s name = some b ↔
    g.declared? s name = some b ∧ ∃ binding, g.bindings[b]? = some binding ∧
      binding.isValue = true := by
  rw [valueAt?, Option.filter_eq_some_iff, Option.any_eq_true]

theorem bodyStart?_eq_some_iff {s : ScopeId} {start : Text.Offset} :
    g.bodyStart? t s = some start ↔ ∃ scope f body span, g.scopes[s]? = some scope ∧
      scope.kind = .function ∧ t.function? (some scope.block) = some f ∧ f.body = some body ∧
      t.span? (some body) = some span ∧ span.start = start := by
  rw [bodyStart?]
  constructor
  · intro starts
    obtain ⟨scope, found, starts⟩ := Option.bind_eq_some_iff.mp starts
    split at starts
    · rename_i function
      obtain ⟨body, hasBody, starts⟩ := Option.bind_eq_some_iff.mp starts
      obtain ⟨f, is, hasBody⟩ := Option.bind_eq_some_iff.mp hasBody
      obtain ⟨span, spans, starts⟩ := Option.map_eq_some_iff.mp starts
      exact ⟨scope, f, body, span, found, function, is, hasBody, spans, starts⟩
    · cases starts
  · rintro ⟨scope, f, body, span, found, function, is, hasBody, spans, rfl⟩
    simp [found, function, is, hasBody, spans]

/-- A value that a scope has under the name of a reference is accepted there, or it is hidden from
the reference. -/
theorem accepts?_or_hidesFrom (isValue : r.usage.isType = false) {s : ScopeId}
    (below : g.IsBelow r.scope s) (has : g.valueAt? s r.name = some b) :
    g.accepts? t s r = some b ∨ g.accepts? t s r ≠ some b ∧ g.HidesFrom t r b := by
  obtain ⟨known, binding, found, value⟩ := valueAt?_eq_some_iff.mp has
  have suits : binding.Suits r := by simpa [Binding.Suits, isValue, Binding.isValue] using value
  have accepted := accepts?_eq_some_iff_of_found (t := t) known found
  rw [and_iff_right suits] at accepted
  by_cases hidden : g.accepts? t s r = some b
  · exact .inl hidden
  · refine .inr ⟨hidden, ?_⟩
    rw [accepted] at hidden
    simp only [Classical.not_forall, not_exists, not_and, exists_prop] at hidden
    obtain ⟨start, starts, before, unnamed⟩ := hidden
    obtain ⟨scope, f, body, span, opened, function, is, hasBody, spans, rfl⟩ :=
      bodyStart?_eq_some_iff.mp starts
    refine ⟨s, scope, binding, f, body, span, below, known, found, opened, function, is, hasBody,
      spans, before, fun d mem name named => ?_⟩
    exact unnamed d mem name named

/-- A scope accepts a reference to a value only for a value that it has under the name. -/
theorem valueAt?_of_accepts? (isValue : r.usage.isType = false) {s : ScopeId}
    (accepted : g.accepts? t s r = some b) : g.valueAt? s r.name = some b := by
  obtain ⟨known, suits⟩ := Option.filter_eq_some_iff.mp accepted
  obtain ⟨binding, found, suits⟩ := (Option.any_eq_true _ _).mp suits
  rw [isValue] at suits
  exact valueAt?_eq_some_iff.mpr ⟨known, binding, found, (Bool.and_eq_true_iff.mp suits).1⟩

/-- A chain that ends before its cut is as long as any chain that does. -/
theorem chain_eq_of_short (precede : g.ParentsPrecede) {s : ScopeId} (inside : s < g.scopes.size)
    {n : Nat} (short : g.ancestor? n s = none) : g.chain n (some s) = g.chain (s + 1) (some s) := by
  -- no scope is so many steps outwards that its cut would show
  have ends {k : Nat} (le : n ≤ k) : g.ancestor? k s = none := by
    rw [← Nat.add_sub_of_le le, ancestor?_add, short, Option.bind_none]
  have past {k : Nat} (lt : s < k) : g.ancestor? k s = none := by
    rw [Option.eq_none_iff_forall_ne_some]
    intro outer reached
    have le := Nat.le_of_add_left_le (ancestor?_le precede reached)
    exact Nat.not_le_of_lt lt le
  apply List.ext_getElem?
  intro k
  rw [getElem?_chain precede n k inside, getElem?_chain precede (s + 1) k inside]
  by_cases far : k < n <;> by_cases far' : k < s + 1
  · rw [if_pos far, if_pos far']
  · rw [if_pos far, if_neg far', past (Nat.lt_of_not_le fun le => far' (Nat.lt_succ_of_le le))]
  · rw [if_neg far, if_pos far', ends (Nat.le_of_not_lt far)]
  · rw [if_neg far, if_neg far']

theorem lookup?_eq_findSome? (g : Graph) (s : ScopeId) (name : String) :
    g.lookup? s name = (g.chain (s + 1) (some s)).findSome? (g.valueAt? · name) :=
  rfl

namespace Linked

variable (linked : g.Linked t) {id : ReferenceId}

include linked

/-- Looking a name up stops at the first scope outwards that has a value under it. -/
theorem lookup?_eq_some_iff (made : g.references[id]? = some r)
    (short : g.ancestor? scopeWalkLimit r.scope = none) :
    g.lookup? r.scope r.name = some b ↔ ∃ before s after,
      g.chain scopeWalkLimit (some r.scope) = before ++ s :: after ∧
      g.valueAt? s r.name = some b ∧ ∀ inner ∈ before, g.valueAt? inner r.name = none := by
  rw [lookup?_eq_findSome?, ← chain_eq_of_short linked.parent_lt (linked.made id r made).1 short,
    List.findSome?_eq_some_iff]

/-- A reference to a value for whose name nothing is found means nothing. -/
theorem resolved_of_lookup?_eq_none (made : g.references[id]? = some r)
    (isValue : r.usage.isType = false) (short : g.ancestor? scopeWalkLimit r.scope = none)
    (missing : g.lookup? r.scope r.name = none) : r.resolved = none := by
  obtain ⟨inside, told⟩ := linked.made id r made
  rw [lookup?_eq_findSome?, ← chain_eq_of_short linked.parent_lt inside short,
    List.findSome?_eq_none_iff] at missing
  rw [told, meaning?, snd_route, List.findSome?_eq_none_iff]
  intro s mem
  rw [Option.eq_none_iff_forall_ne_some]
  intro b accepted
  have has := valueAt?_of_accepts? isValue accepted
  rw [missing s mem] at has
  cases has

/-- A reference to a value means what is found for its name, or that is hidden from it. -/
theorem resolved_or_hidesFrom (made : g.references[id]? = some r)
    (isValue : r.usage.isType = false) (short : g.ancestor? scopeWalkLimit r.scope = none)
    (found : g.lookup? r.scope r.name = some b) :
    r.resolved = some b ∨ r.resolved ≠ some b ∧ g.HidesFrom t r b := by
  obtain ⟨inside, told⟩ := linked.made id r made
  obtain ⟨before, s, after, way, has, without⟩ := (linked.lookup?_eq_some_iff made short).mp found
  have below : g.IsBelow r.scope s := by
    obtain ⟨k, -, reached⟩ := (mem_chain linked.parent_lt inside).mp
      (way ▸ List.mem_append_right before List.mem_cons_self)
    exact ⟨k, reached⟩
  -- the scopes before that one have no value to accept
  have refused (inner : ScopeId) (mem : inner ∈ before) : g.accepts? t inner r = none := by
    rw [Option.eq_none_iff_forall_ne_some]
    intro other accepted
    have value := valueAt?_of_accepts? isValue accepted
    rw [without inner mem] at value
    cases value
  rcases accepts?_or_hidesFrom isValue below has with accepted | ⟨refusedHere, hides⟩
  · left
    rw [told, meaning?, snd_route, List.findSome?_eq_some_iff]
    exact ⟨before, s, after, way, accepted, refused⟩
  · right
    refine ⟨fun meant => refusedHere ?_, hides⟩
    -- a binding is declared in one scope alone, so it could be accepted in that one only
    obtain ⟨-, home, -, -, accepted, -⟩ := linked.exists_accepts made meant
    obtain ⟨binding, is, scope⟩ := linked.declared s r.name b (valueAt?_eq_some_iff.mp has).1
    obtain ⟨binding', is', scope'⟩ :=
      linked.declared home r.name b (declared?_of_accepts? t accepted).1
    obtain rfl : binding = binding' := Option.some.inj (is.symm.trans is')
    rw [← scope, scope']
    exact accepted

end Linked
end Scope.Graph

namespace Capture
open Scope (Environment Reference ReferenceId scopeWalkLimit)

/-- What references to values mean, compared with what is found for their names. Only references
with no longer chains of scopes than are visited are compared. -/
structure LooksUpAlike (p : Program) : Prop where
  /-- A reference means what is found, or what is found is hidden from it and it does not mean
  that. -/
  agrees : ∀ (id : ReferenceId) (r : Reference), p.graph.references[id]? = some r →
    r.usage.isType = false → p.graph.ancestor? scopeWalkLimit r.scope = none →
    r.resolved = p.graph.lookup? r.scope r.name ∨
      ∃ b, p.graph.lookup? r.scope r.name = some b ∧ r.resolved ≠ some b ∧
        p.graph.HidesFrom p.tree r b
  /-- Where nothing is found, a reference means nothing. -/
  missing : ∀ (id : ReferenceId) (r : Reference), p.graph.references[id]? = some r →
    r.usage.isType = false → p.graph.ancestor? scopeWalkLimit r.scope = none →
    p.graph.lookup? r.scope r.name = none → r.resolved = none

/-- Whatever text and whatever surroundings, references to values mean what is found for their
names, but for what is hidden in the bodies of functions. -/
theorem looksUpAlike_ofText (text : List Char) (environment : Environment) :
    LooksUpAlike (.ofText text environment) where
  agrees id r made isValue short := by
    have linked := Scope.Graph.linked_ofTree (Grammar.parseText text).tree environment
    cases found : (Program.ofText text environment).graph.lookup? r.scope r.name with
    | none => exact .inl (linked.resolved_of_lookup?_eq_none made isValue short found)
    | some b =>
      rcases linked.resolved_or_hidesFrom made isValue short found with meant | ⟨other, hides⟩
      · exact .inl meant
      · exact .inr ⟨b, rfl, other, hides⟩
  missing id r made isValue short :=
    (Scope.Graph.linked_ofTree (Grammar.parseText text).tree
      environment).resolved_of_lookup?_eq_none
      made isValue short

end Capture
end LoopCapture
