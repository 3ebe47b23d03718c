import LoopCapture.Proofs.Scope.Sides

/-!
# What the parameters of a function see

A reference in front of the body of a function sees what the scope of the function declares, but not
what is declared in the body alone. A declaration counts as one in front of the body when it names
an identifier there. So the object of the arguments, which no identifier names, is not seen in front
of the body either.
-/

namespace LoopCapture
open Syntax (Function NodeId Tree)

namespace Scope

/-- A declaration of a name that starts in front of the body of a function, if the function has a
body. -/
def Definition.StartsBefore (t : Tree) (f : Function) (d : Definition) : Prop :=
  ∀ body, f.body = some body → ∃ span, t.span? d.name = some span ∧ span.start < t.startOf body

/-- The name of a binding stands for what a reference needs: a type or a value. -/
def Binding.Suits (binding : Binding) (r : Reference) : Prop :=
  if r.usage.isType then ∃ d ∈ binding.definitions, d.kind.isType = true
  else ∃ d ∈ binding.definitions, d.kind.isValue = true

namespace Graph

/-- The way of a reference leads to a scope: it passes through all scopes before that one, and the
limit is not reached. -/
def Reaches (g : Graph) (id : ReferenceId) (r : Reference) (s : ScopeId) : Prop :=
  ∃ k < scopeWalkLimit, g.ancestor? k r.scope = some s ∧
    ∀ j < k, ∀ inner, g.ancestor? j r.scope = some inner → id ∈ g.through inner

variable {g : Graph} {t : Tree}

/-- A scope that a reference passes through does not accept it. -/
theorem Linked.refused_of_mem_through (linked : g.Linked t) {id : ReferenceId} {r : Reference}
    (made : g.references[id]? = some r) {s : ScopeId} (through : id ∈ g.through s) :
    g.accepts? t s r = none := by
  have mem := (linked.mem_through_of_made made s).mp through
  rw [passed, fst_route] at mem
  exact Option.isNone_iff_eq_none.mp (List.all_eq_true.mp List.all_takeWhile s mem)

/-- Where its way leads, a reference means what the scope accepts. -/
theorem Linked.resolved_iff_of_reaches (linked : g.Linked t) {id : ReferenceId} {r : Reference}
    (made : g.references[id]? = some r) {s : ScopeId} (reaches : g.Reaches id r s) {b : BindingId}
    (known : g.declared? s r.name = some b) :
    r.resolved = some b ↔ g.accepts? t s r = some b := by
  obtain ⟨k, visited, reached, passes⟩ := reaches
  have refused (j : Nat) (lt : j < k) (inner : ScopeId) (is : g.ancestor? j r.scope = some inner) :=
    linked.refused_of_mem_through made (passes j lt inner is)
  refine ⟨fun meant => ?_, fun accepted =>
    (linked.resolved.accepted id r k s b made visited reached accepted refused).1⟩
  obtain ⟨k', home, -, reached', accepted, refused'⟩ := linked.exists_accepts made meant
  obtain ⟨binding, found, scope⟩ := linked.declared s r.name b known
  obtain ⟨binding', found', scope'⟩ :=
    linked.declared home r.name b (declared?_of_accepts? t accepted).1
  obtain rfl := Option.some.inj (found.symm.trans found')
  exact scope.symm.trans scope' ▸ accepted

/-- A scope accepts what suits a reference. From in front of the body that starts at the given
place, some declaration must start there as well. -/
theorem accepts?_eq_some_iff_of_found {s : ScopeId} {r : Reference} {b : BindingId}
    {binding : Binding} (known : g.declared? s r.name = some b)
    (found : g.bindings[b]? = some binding) :
    g.accepts? t s r = some b ↔ binding.Suits r ∧
      ∀ start, g.bodyStart? t s = some start → r.start < start →
        ∃ d ∈ binding.definitions, ∃ span, t.span? d.name = some span ∧ span.start < start := by
  have isSuited : (if r.usage.isType then binding.isType else binding.isValue) = true ↔
      binding.Suits r := by
    cases isType : r.usage.isType <;>
      simp [Binding.Suits, Binding.isType, Binding.isValue, isType]
  have hidden (start : Text.Offset) : declaredInBody t binding start = false ↔
      ∃ d ∈ binding.definitions, ∃ span, t.span? d.name = some span ∧ span.start < start := by
    simp [declaredInBody, Option.all_eq_false]
  rw [accepts?, Option.filter_eq_some_iff, found, Option.any_some, Bool.and_eq_true, isSuited]
  cases body : g.bodyStart? t s with
  | none => simp [known]
  | some start =>
    simp only [known, Option.any_some, Bool.not_and, Bool.or_eq_true, Bool.not_eq_true',
      decide_eq_false_iff_not, hidden, true_and, Option.some.injEq, forall_eq', ← imp_iff_not_or]

/-- The body of a function starts where the scope of the function says. -/
theorem bodyStart?_of_opened (formed : g.WellFormed t) (precede : t.ChildrenPrecede)
    {node : NodeId} {f : Function} (is : t.nodes.shape? node = some (.function f)) {s : ScopeId}
    (opened : g.nodeScope? (some node) = some s) : g.bodyStart? t s = f.body.map t.startOf := by
  have isFunction : t.function? (some node) = some f := Tree.function?_eq_some_iff.mpr is
  obtain ⟨scope, found, rfl, -, kind⟩ := formed.opened node s opened
  have function := kind (Tree.isFunction_of_function? isFunction)
  rw [bodyStart?, found, Option.bind_some, if_pos function, isFunction, Option.bind_some]
  cases hasBody : f.body with
  | none => rfl
  | some body =>
    have child : body ∈ t.children scope.block := by
      simp [Tree.children, is, Syntax.Shape.children, Syntax.Shape.slots, hasBody]
    obtain ⟨n, there, -⟩ := Option.map_eq_some_iff.mp is
    have lt := Nat.lt_trans (precede _ _ child) (Array.getElem?_eq_some_iff.mp there).1
    simp [Tree.span?, Tree.startOf, lt, Syntax.Node.span]

end Graph
end Scope

namespace Capture
open Scope (Environment)
open Program (ofText)

/-- What references in front of the bodies of functions mean. -/
structure SeesFromHead (p : Program) : Prop where
  /-- A reference whose way leads to the scope of a function means what suits it there, unless no
  declaration of that names an identifier in front of the body. -/
  resolved_iff : ∀ node f s, p.tree.nodes.shape? node = some (.function f) →
    p.graph.nodeScope? (some node) = some s →
    ∀ id r, p.graph.references[id]? = some r → (∃ part ∈ f.head, p.tree.Below r.identifier part) →
    p.graph.Reaches id r s →
    ∀ b binding, p.graph.declared? s r.name = some b → p.graph.bindings[b]? = some binding →
    binding.Suits r → (r.resolved = some b ↔ ∃ d ∈ binding.definitions, d.StartsBefore p.tree f)

/-- Whatever text and whatever surroundings, references in front of the bodies of functions mean
what is declared there or in front of there. -/
theorem seesFromHead_ofText (text : List Char) (environment : Environment) :
    SeesFromHead (.ofText text environment) where
  resolved_iff node f s is opened id r made inHead reaches b binding known found suits := by
    have precede := childrenPrecede_parseText text
    have linked := Scope.Graph.linked_ofTree (Grammar.parseText text).tree environment
    have body := Scope.Graph.bodyStart?_of_opened (wellFormed_ofText text environment).2 precede is
      opened
    obtain ⟨part, mem, below⟩ := inHead
    -- the reference itself stands in front of the body
    obtain ⟨old, was, same⟩ := Scope.Graph.made_resolveAll (Scope.sound_walkTree _ _) made
    have ⟨named, starts⟩ := (Scope.lawful_walkTree precede (Grammar.root_lt_parseText text)
      environment).spelled id old was
    have before (root : Syntax.NodeId) (hasBody : f.body = some root) :
        r.start < (ofText text environment).tree.startOf root := by
      subst same
      exact starts ▸ (Grammar.isNested_parseText text).startOf_lt_body
        (Grammar.isOrdered_parseText text) is hasBody mem below named
    have accepted := Scope.Graph.accepts?_eq_some_iff_of_found (t := (ofText text environment).tree)
      known found
    rw [body] at accepted
    refine (linked.resolved_iff_of_reaches made reaches known).trans (accepted.trans ?_)
    rw [and_iff_right suits]
    cases hasBody : f.body with
    | none => simp [Scope.Definition.StartsBefore, hasBody, Scope.Binding.definitions]
    | some root => simp [Scope.Definition.StartsBefore, hasBody, before root hasBody]

end Capture
end LoopCapture
