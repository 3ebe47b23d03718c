import LoopCapture.Proofs.Capture.Memory
import LoopCapture.Proofs.Scope.Parameters

/-!
# Function expressions that mention themselves

The name of a function expression is the only name of a scope that holds the scope of the function
and nothing else. So a reference that means the name passes through the scope of the function, and a
use of a value that is spelled like the name and passes through that scope means the name. Spelling
tells the same there as resolution.
-/

namespace LoopCapture
open Syntax (Function NodeId Tree)

namespace Scope.Graph

variable {g g' : Graph} {t : Tree}

/-- The names of function expressions have scopes of their own: no reference is made there, one
scope at most is opened there, and the scope of a function expression with a name is. -/
structure SetsNamesApart (g : Graph) (t : Tree) : Prop where
  quiet : ∀ (id : ReferenceId) (r : Reference), g.references[id]? = some r →
    ¬ g.IsNameScope r.scope
  single : ∀ s inner inner', g.IsNameScope s → g.parentOf inner = some s →
    g.parentOf inner' = some s → inner = inner'
  named : ∀ s frame f own, g.frame? s = some frame → frame.kind = .function →
    t.nodes.shape? frame.block = some (.function f) → f.form = .expression →
    t.nameText? f.name = some own → ∃ n, g.parentOf s = some n ∧ g.Names n frame.block f own

theorem Lawful.setsNamesApart_resolveAll (lawful : g.Lawful t) (sound : g.Sound) :
    (g.resolveAll t).SetsNamesApart t := by
  have same : (g.resolveAll t).bare = g.bare := bare_resolveFirst t g.references.size
  have frames (s : ScopeId) : (g.resolveAll t).frame? s = g.frame? s := by
    rw [← frame?_bare, same, frame?_bare]
  constructor
  · intro id r made
    obtain ⟨old, was, rfl⟩ := made_resolveAll sound made
    exact mt (isNameScope_congr (frames old.scope)).mp (lawful.quiet id old was)
  · intro s inner inner' names above above'
    rw [parentOf_of_frames frames] at above above'
    exact lawful.single s inner inner' ((isNameScope_congr (frames s)).mp names) above above'
  · intro s frame f own found function is form text
    obtain ⟨n, above, names⟩ :=
      lawful.named s frame f own (frames s ▸ found) function is form text
    refine ⟨n, by simpa [parentOf_eq_bind_frame?, found] using above,
      names.of_frame (fun s _ is => (frames s).trans is) fun s name d introduces => ?_⟩
    refine introduces.of_bindings (fun b known => ?_) fun b binding was => ?_
    · rwa [← declared?_bare, same, declared?_bare]
    · obtain ⟨old, found, is⟩ := binding_of_bare same.symm was
      exact ⟨old, found, by rw [is]⟩

namespace Linked

variable (linked : g.Linked t) {id : ReferenceId} {r : Reference}
  (made : g.references[id]? = some r)

include linked made

/-- A reference passes through scopes that its way visits. -/
theorem exists_ancestor?_of_mem_through {s : ScopeId} (through : id ∈ g.through s) :
    ∃ k < scopeWalkLimit, g.ancestor? k r.scope = some s := by
  have mem := (g.passed_sublist t r).mem ((linked.mem_through_of_made made s).mp through)
  exact (mem_chain linked.parent_lt (linked.made id r made).1).mp mem

theorem isBelow_of_mem_through {s : ScopeId} (through : id ∈ g.through s) :
    g.IsBelow r.scope s := by
  obtain ⟨k, -, reached⟩ := linked.exists_ancestor?_of_mem_through made through
  exact ⟨k, reached⟩

/-- A reference that passes through a scope has passed through all scopes before. -/
theorem mem_through_before {j k : Nat} {inner s : ScopeId} (through : id ∈ g.through s)
    (reached : g.ancestor? k r.scope = some s) (le : j ≤ k)
    (before : g.ancestor? j r.scope = some inner) : id ∈ g.through inner := by
  have at_ (j : Nat) := getElem?_chain linked.parent_lt scopeWalkLimit j (linked.made id r made).1
  rw [linked.mem_through_of_made made, passed, fst_route] at through ⊢
  obtain ⟨i, passes⟩ := List.getElem?_of_mem through
  obtain ⟨rest, way⟩ := List.takeWhile_prefix (l := g.chain scopeWalkLimit (some r.scope))
    fun s => (g.accepts? t s r).isNone
  have short := (List.getElem?_eq_some_iff.mp passes).1
  have here := at_ i
  rw [← way, List.getElem?_append_left short, passes] at here
  split at here
  · rename_i visited
    obtain rfl := ancestor?_inj linked.parent_lt reached here.symm
    have there := at_ j
    rw [if_pos (Nat.lt_of_le_of_lt le visited), before, ← way,
      List.getElem?_append_left (Nat.lt_of_le_of_lt le short)] at there
    exact List.mem_of_getElem? there
  · cases here

/-- Where the chain of scopes is short enough, a reference that passes through a scope reaches the
scope around it. -/
theorem reaches_of_mem_through {s outer : ScopeId} (through : id ∈ g.through s)
    (above : g.parentOf s = some outer) (short : g.ancestor? scopeWalkLimit r.scope = none) :
    g.Reaches id r outer := by
  obtain ⟨k, visited, reached⟩ := linked.exists_ancestor?_of_mem_through made through
  have next : g.ancestor? (k + 1) r.scope = some outer := by
    rw [ancestor?_add, reached]
    simp [ancestor?, above]
  refine ⟨k + 1, Nat.lt_of_le_of_ne visited fun last => ?_, next, fun j lt inner before => ?_⟩
  · rw [← last, next] at short
    cases short
  · exact linked.mem_through_before made through reached (Nat.le_of_lt_succ lt) before

end Linked

section OwnName

variable {s n : ScopeId} {node : NodeId} {f : Function} {own : String} {b : BindingId}
  {id : ReferenceId} {r : Reference}

/-- The scope of a name accepts the uses of values that are spelled like the name. -/
theorem accepts?_of_names (names : g.Names n node f own) (known : g.declared? n own = some b)
    (isValue : r.usage.isType = false) (spelled : r.name = own) : g.accepts? t n r = some b := by
  obtain ⟨⟨frame, opened, kind⟩, b', binding, known', found, first⟩ := names
  obtain rfl := Option.some.inj (known.symm.trans known')
  refine (accepts?_eq_some_iff_of_found (spelled ▸ known) found).mpr ⟨?_, fun start body => ?_⟩
  · rw [Binding.Suits, isValue, if_neg Bool.false_ne_true]
    exact ⟨binding.first, List.mem_cons_self, first ▸ rfl⟩
  · rw [bodyStart?_eq_bind_frame?, opened, Option.bind_some, if_neg (by simp [kind])] at body
    cases body

variable (linked : g.Linked t) (made : g.references[id]? = some r)

include linked made

/-- A use of a value that is spelled like the name of a function and passes through the scope of the
function means the name. -/
theorem resolved_of_mem_through (above : g.parentOf s = some n) (names : g.Names n node f own)
    (known : g.declared? n own = some b) (isValue : r.usage.isType = false) (spelled : r.name = own)
    (through : id ∈ g.through s) (short : g.ancestor? scopeWalkLimit r.scope = none) :
    r.resolved = some b :=
  (linked.resolved_iff_of_reaches made (linked.reaches_of_mem_through made through above short)
    (spelled ▸ known)).mpr (accepts?_of_names names known isValue spelled)

/-- A reference that means the name of a function is spelled like it and passes through the scope of
the function. -/
theorem mem_through_of_resolved (formed : g.WellFormed t) (apart : g.SetsNamesApart t)
    (above : g.parentOf s = some n) (names : g.Names n node f own)
    (known : g.declared? n own = some b) (meant : r.resolved = some b) :
    id ∈ g.through s ∧ r.name = own := by
  obtain ⟨k, home, -, reached, accepted, -⟩ := linked.exists_accepts made meant
  have here := (declared?_of_accepts? t accepted).1
  obtain ⟨binding, found, scope⟩ := linked.declared n own b known
  obtain ⟨other, same, scope'⟩ := linked.declared home r.name b here
  obtain rfl := Option.some.inj (found.symm.trans same)
  obtain rfl : n = home := scope.symm.trans scope'
  constructor
  · obtain ⟨child, inside, below⟩ := exists_child_of_isBelow ⟨k, reached⟩ fun is =>
      apart.quiet id r made (is ▸ names.1)
    obtain rfl := apart.single n child s names.1 inside above
    refine (linked.mem_through_iff_isBelow made meant found child).mpr ⟨below, fun back => ?_⟩
    have le := back.le linked.parent_lt
    exact Nat.not_le.mpr (linked.parent_lt child n above) (scope ▸ le)
  · have name {text : String} (known : g.declared? n text = some b) : g.nameOf? b = some text := by
      obtain ⟨there, is, listed⟩ := Option.bind_eq_some_iff.mp known
      exact ((formed.names_iff n there is text b).mp listed).2
    exact Option.some.inj ((name here).symm.trans (name known))

end OwnName

end Scope.Graph

namespace Capture
open Scope (BindingId Environment Reference ReferenceId ScopeId)
open Program (ofText)

namespace Program

/-- The binding of the name of a function expression, in the scope around that of the function. -/
def IsOwnName (p : Program) (node : NodeId) (own : String) (b : BindingId) : Prop :=
  ∃ s n, p.graph.nodeScope? (some node) = some s ∧ p.graph.parentOf s = some n ∧
    p.graph.declared? n own = some b

/-- The function is what the call that is its parent calls. -/
def IsCalled (p : Program) (node : NodeId) : Prop :=
  ∃ call c, p.tree.parent node = some call ∧ p.tree.nodes.shape? call = some (.call c) ∧
    c.callee = some node

variable {p : Program} {node : NodeId} {f : Function} {own : String}

theorem mem_captures {s : ScopeId} {r : Reference} :
    r ∈ p.captures s ↔ ∃ id ∈ p.graph.through s, p.graph.references[id]? = some r := by
  simp [captures, references]

theorem isCallee_iff : p.tree.isCallee (some node) = true ↔ p.IsCalled node := by
  rw [Tree.isCallee, Option.bind_some]
  constructor
  · intro called
    split at called
    · rename_i c is
      obtain ⟨call, above, shape⟩ := Option.bind_eq_some_iff.mp is
      exact ⟨call, c, above, shape, beq_iff_eq.mp called⟩
    · cases called
  · rintro ⟨call, c, above, shape, callee⟩
    simp [Tree.shape?, above, shape, callee]

/-- A function expression with a name is exempt when it is called where it is written, runs to its
end, and nothing that is spelled like its name passes through its scope. -/
theorem isExempt_iff (is : p.tree.nodes.shape? node = some (.function f))
    (form : f.form = .expression) (name : p.tree.shape? f.name = some (.identifier own)) :
    p.isExempt node = true ↔ p.IsCalled node ∧ f.isAsync = false ∧ f.isGenerator = false ∧
      ∀ s, p.graph.nodeScope? (some node) = some s → ∀ r ∈ p.captures s, r.name ≠ own := by
  have mentions : p.mentionsItself node f = false ↔
      ∀ s, p.graph.nodeScope? (some node) = some s → ∀ r ∈ p.captures s, r.name ≠ own := by
    simp [mentionsItself, name, Option.any_eq_false]
  have function : p.tree.function? (some node) = some f := Tree.function?_eq_some_iff.mpr is
  rw [← isCallee_iff, ← mentions]
  simp only [isExempt, function, Option.any_some, Function.canSuspend, form, beq_self_eq_true,
    Bool.true_or, Bool.and_true, Bool.and_eq_true, Bool.not_eq_true', Bool.or_eq_false_iff]
  tauto

/-- Around the scope of a function expression with a name is the scope of the name. -/
theorem exists_name_scope (formed : p.graph.WellFormed p.tree)
    (apart : p.graph.SetsNamesApart p.tree) (is : p.tree.nodes.shape? node = some (.function f))
    (form : f.form = .expression) (name : p.tree.shape? f.name = some (.identifier own))
    {s : ScopeId} (opened : p.graph.nodeScope? (some node) = some s) :
    ∃ n, p.graph.parentOf s = some n ∧ p.graph.Names n node f own := by
  obtain ⟨scope, found, rfl, -, kind⟩ := formed.opened node s opened
  have function := kind (by simp [Tree.isFunction, Tree.shape?, is, Syntax.Shape.isFunction])
  exact apart.named s _ f own (Scope.Graph.frame?_of_scope found) function is form
    (by simp [Tree.nameText?, name, Syntax.Shape.nameText?])

end Program

structure ExemptsNamed (p : Program) (exempt : NodeId → Bool) : Prop where
  /-- The name is declared in the scope around that of the function, by the function itself. -/
  own_name : ∀ node f own s, p.tree.nodes.shape? node = some (.function f) → f.form = .expression →
    p.tree.shape? f.name = some (.identifier own) → p.graph.nodeScope? (some node) = some s →
    ∃ b binding, p.IsOwnName node own b ∧ p.graph.bindings[b]? = some binding ∧
      binding.first = ⟨.functionExpressionName, f.name, node⟩
  /-- A function expression whose uses of names have no longer chains of scopes than are visited is
  exempt when it is called where it is written, runs to its end, and neither a reference means its
  name nor a type that is spelled like it passes through its scope. -/
  exempt_iff : ∀ node f own, p.tree.nodes.shape? node = some (.function f) → f.form = .expression →
    p.tree.shape? f.name = some (.identifier own) →
    (∀ s (id : ReferenceId) (r : Reference), p.graph.nodeScope? (some node) = some s →
      p.graph.references[id]? = some r → p.graph.IsBelow r.scope s →
      p.graph.ancestor? Scope.scopeWalkLimit r.scope = none) →
    (exempt node = true ↔ p.IsCalled node ∧ f.isAsync = false ∧ f.isGenerator = false ∧
      (∀ (id : ReferenceId) (r : Reference) b, p.graph.references[id]? = some r →
        p.IsOwnName node own b → r.resolved ≠ some b) ∧
      ∀ s, p.graph.nodeScope? (some node) = some s →
        ∀ r ∈ p.captures s, r.usage.isType = true → r.name ≠ own)

/-- Whatever text and whatever surroundings, a session judges function expressions with names so,
whatever it was asked before. -/
theorem exemptsNamed_ofText (text : List Char) (environment : Environment)
    (asked : List Session.Question) :
    ExemptsNamed (.ofText text environment) fun closure =>
      ((Session.isExempt (.ofText text environment) closure).run
        (Session.memoryAfter (.ofText text environment) asked)).1 := by
  have linked : (ofText text environment).graph.Linked (ofText text environment).tree :=
    Scope.Graph.linked_ofTree (Grammar.parseText text).tree environment
  have formed := (wellFormed_ofText text environment).2
  have apart : (ofText text environment).graph.SetsNamesApart (ofText text environment).tree :=
    (Scope.lawful_walkTree (childrenPrecede_parseText text) (Grammar.root_lt_parseText text)
      environment).setsNamesApart_resolveAll (Scope.sound_walkTree _ _)
  simp only [(Session.answers_isExempt _ _ (Session.sound_memoryAfter asked)).1]
  constructor
  · intro node f own s is form name opened
    obtain ⟨n, above, names⟩ := Program.exists_name_scope formed apart is form name opened
    obtain ⟨b, binding, known, found, first⟩ := names.2
    exact ⟨b, binding, ⟨s, n, opened, above, known⟩, found, first⟩
  · intro node f own is form name short
    refine (Program.isExempt_iff is form name).trans ?_
    refine and_congr_right fun _ => and_congr_right fun _ => and_congr_right fun _ => ?_
    constructor
    · refine fun quiet => ⟨?_, fun s opened r mem _ => quiet s opened r mem⟩
      rintro id r b made ⟨s, n', opened, above', known⟩ meant
      obtain ⟨n, above, names⟩ := Program.exists_name_scope formed apart is form name opened
      obtain rfl := Option.some.inj (above.symm.trans above')
      obtain ⟨through, spelled⟩ :=
        Scope.Graph.mem_through_of_resolved linked made formed apart above names known meant
      exact quiet s opened r (Program.mem_captures.mpr ⟨id, through, made⟩) spelled
    · rintro ⟨unmeant, types⟩ s opened r mem spelled
      obtain ⟨id, through, made⟩ := Program.mem_captures.mp mem
      obtain ⟨n, above, names⟩ := Program.exists_name_scope formed apart is form name opened
      have below := linked.isBelow_of_mem_through made through
      cases isType : r.usage.isType with
      | true => exact types s opened r mem isType spelled
      | false =>
        obtain ⟨b, -, known, -⟩ := names.2
        exact unmeant id r b made ⟨s, n, opened, above, known⟩ <|
          Scope.Graph.resolved_of_mem_through linked made above names known isType spelled through
            (short s id r opened made below)

end Capture
end LoopCapture
