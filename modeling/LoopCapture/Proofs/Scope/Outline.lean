import LoopCapture.Scope.Outline
import LoopCapture.Proofs.Scope.Opening
import Mathlib.Data.List.Forall2
import Mathlib.Data.List.Perm.Lattice

/-!
# Outlines lose nothing

The outline of a text tells every scope once, in the order in which the scopes were opened, and
counts for each variable the references that mean it. Every reference means one binding or none, and
those that mean none pass through the outermost scope when no way outwards is cut short. So the
counts of all variables and what passes through the outermost scope make up all references.
-/

namespace LoopCapture
open Syntax (Tree)

namespace Scope

namespace Outline

def kind : Outline → ScopeKind
  | .scope kind .. => kind

def block : Outline → String
  | .scope _ block .. => block

def range : Outline → Text.Span
  | .scope _ _ range .. => range

def owned : Outline → List VariableOutline
  | .scope _ _ _ owned .. => owned

def through : Outline → List String
  | .scope _ _ _ _ through _ => through

def children : Outline → List Outline
  | .scope _ _ _ _ _ children => children

mutual

def preorder : Outline → List Outline
  | .scope kind block range owned through children =>
    .scope kind block range owned through children :: preorders children

def preorders : List Outline → List Outline
  | [] => []
  | o :: rest => preorder o ++ preorders rest

end

theorem preorders_eq (outlines : List Outline) :
    preorders outlines = outlines.flatMap preorder := by
  induction outlines with
  | nil => rfl
  | cons o rest ih => rw [preorders, ih, List.flatMap_cons]

theorem preorder_eq (o : Outline) : o.preorder = o :: o.children.flatMap preorder := by
  cases o
  rw [preorder, preorders_eq]
  rfl

def referenceCount (outlines : List Outline) : Nat :=
  (outlines.flatMap owned).foldr (fun v n => v.references + n) 0

end Outline

namespace Graph

/-- What is told of a variable are its name, its first declaration, and how many references of the
graph mean it, all of them and those that write. -/
structure CountsUses (g : Graph) (b : BindingId) (v : VariableOutline) : Prop where
  named : ∃ binding, g.bindings[b]? = some binding ∧ v.name = binding.name ∧
    v.kind = binding.first.kind
  references_eq : v.references = g.references.toList.countP fun r => r.resolved = some b
  writes_eq : v.writes = g.references.toList.countP fun r => r.resolved = some b ∧ r.usage.write

/-- What is told of a scope: its data, its variables one by one, the names of the references that
pass through it one by one, and the scopes inside, which stand in the list at their places. -/
structure TellsScope (g : Graph) (t : Tree) (outlines : List Outline) (scope : LoopCapture.Scope)
    (o : Outline) : Prop where
  kind_eq : o.kind = scope.kind
  block_eq : o.block = t.kindName (some scope.block)
  range_eq : o.range = (t.span? (some scope.block)).getD ⟨0, 0⟩
  owned : List.Forall₂ g.CountsUses scope.bindings.toList o.owned
  through : List.Forall₂ (fun id name => ∃ r, g.references[id]? = some r ∧ name = r.name)
    scope.through.toList o.through
  children : List.Forall₂ (fun child inner => outlines[child]? = some inner)
    scope.children.toList o.children

/-- An outline that loses nothing of a graph. -/
structure OutlinesAll (g : Graph) (t : Tree) (outline : Outline) : Prop where
  one_each : outline.preorder.length = g.scopes.size
  /-- The outline that stands in a place of the preorder tells the scope of that place. -/
  tells : ∀ (s : ScopeId) (scope : LoopCapture.Scope), g.scopes[s]? = some scope →
    ∃ o, outline.preorder[s]? = some o ∧ g.TellsScope t outline.preorder scope o
  /-- Where no chain of scopes is longer than the scopes visited to resolve a reference, the counts
  of the variables and what passes through the outermost scope make up all references. -/
  conserves : (∀ s < g.scopes.size, g.ancestor? scopeWalkLimit s = none) →
    Outline.referenceCount outline.preorder + outline.through.length = g.references.size

variable {g : Graph} {t : Tree} {s : ScopeId} {scope : LoopCapture.Scope} {o : Outline}

theorem forall₂_filterMap {α β : Type} {f : α → Option β} {l : List α}
    (all : ∀ a ∈ l, ∃ b, f a = some b) :
    List.Forall₂ (fun a b => f a = some b) l (l.filterMap f) := by
  induction l with
  | nil => exact .nil
  | cons a l ih =>
    obtain ⟨⟨b, is⟩, rest⟩ := List.forall_mem_cons.mp all
    rw [List.filterMap_cons_some is]
    exact .cons is (ih rest)

/-- The outline of a scope has those of its children inside. -/
theorem WellFormed.outlineFrom_eq (h : g.WellFormed t) (found : g.scopes[s]? = some scope) :
    ∃ children, g.outlineFrom t s = some (g.scopeOutline t scope children) ∧
      List.Forall₂ (fun child inner => g.outlineFrom t child = some inner)
        scope.children.toList children := by
  obtain ⟨lt, is⟩ := Array.getElem?_eq_some_iff.mp found
  induction later : g.scopes.size - s using Nat.strongRecOn generalizing s scope with
  | ind n ih =>
    have inside (child : ScopeId) (mem : child ∈ scope.children.toList) :
        s < child ∧ child < g.scopes.size := by
      rw [h.children_eq s scope found, List.mem_filter, List.mem_range, decide_eq_true_eq] at mem
      exact ⟨h.parent_lt child s mem.2, mem.1⟩
    have told (child : ScopeId) (mem : child ∈ scope.children.toList) :
        ∃ inner, (if s < child then g.outlineFrom t child else none) = some inner := by
      obtain ⟨after, bound⟩ := inside child mem
      obtain ⟨_, is, -⟩ := ih (g.scopes.size - child) (later ▸ Nat.sub_lt_sub_left lt after)
        (Array.getElem?_eq_getElem bound) bound rfl rfl
      exact ⟨_, (if_pos after).trans is⟩
    rw [outlineFrom, dif_pos lt, is]
    refine ⟨_, rfl, (forall₂_filterMap told).imp fun child inner is => ?_⟩
    split at is
    · exact is
    · cases is

theorem lt_size_of_outlineFrom (is : g.outlineFrom t s = some o) : s < g.scopes.size := by
  rw [outlineFrom] at is
  split at is
  · assumption
  · cases is

/-- The preorder of the outline of a scope is made of the outlines of the scopes inside it, in the
order in which these were opened. -/
theorem WellFormed.forall₂_preorder (h : g.WellFormed t) (stacked : g.Stacked)
    (is : g.outlineFrom t s = some o) :
    List.Forall₂ (fun x inner => g.outlineFrom t x = some inner) (g.inside s) o.preorder := by
  have lt := lt_size_of_outlineFrom is
  induction later : g.scopes.size - s using Nat.strongRecOn generalizing s o with
  | ind n ih =>
    have found := Array.getElem?_eq_getElem lt
    obtain ⟨children, is', told⟩ := h.outlineFrom_eq found
    obtain rfl := Option.some.inj (is.symm.trans is')
    have listed := h.children_eq s _ found
    have inside (child : ScopeId) (mem : child ∈ g.scopes[s].children.toList) :
        s < child ∧ child < g.scopes.size := by
      rw [listed, List.mem_filter, List.mem_range, decide_eq_true_eq] at mem
      exact ⟨h.parent_lt child s mem.2, mem.1⟩
    rw [stacked.inside_eq h.parent_lt listed lt, Outline.preorder_eq]
    refine .cons is (List.rel_flatMap ((List.forall₂_and_left _ _).mpr ⟨inside, told⟩) ?_)
    rintro child inner ⟨⟨after, bound⟩, is⟩
    exact ih (g.scopes.size - child) (later ▸ Nat.sub_lt_sub_left lt after) is bound rfl

/-- The place of a scope in the preorder of the whole outline is its own. -/
theorem WellFormed.getElem?_preorder (h : g.WellFormed t) (stacked : g.Stacked)
    (is : g.outline t = some o) {inner : Outline} (told : g.outlineFrom t s = some inner) :
    o.preorder[s]? = some inner := by
  have each := h.forall₂_preorder stacked is
  rw [h.inside_zero] at each
  have lt := lt_size_of_outlineFrom told
  have bound : s < o.preorder.length := by rwa [← each.length_eq, List.length_range]
  have here := each.get (i := s) (by rwa [List.length_range]) bound
  rw [List.get_eq_getElem, List.getElem_range, told] at here
  rw [List.getElem?_eq_getElem bound, here, List.get_eq_getElem]

theorem countP_range {α : Type} (xs : Array α) (test : α → Bool) :
    (List.range xs.size).countP (fun i => xs[i]?.any test) = xs.toList.countP test := by
  have made : (List.range xs.size).map (xs[·]?) = xs.toList.map some := by
    refine List.ext_getElem (by simp) fun i lt _ => ?_
    simp_all
  calc (List.range xs.size).countP (fun i => xs[i]?.any test)
      = ((List.range xs.size).map (xs[·]?)).countP (·.any test) := by rw [List.countP_map]; rfl
    _ = xs.toList.countP test := by rw [made, List.countP_map]; rfl

namespace Linked

variable (linked : g.Linked t) {b : BindingId}

include linked

theorem referencesOf_eq_filter (b : BindingId) : g.referencesOf b =
    (List.range g.references.size).filter fun id =>
      g.references[id]?.any fun r => r.resolved = some b := by
  rw [linked.referencesOf_eq]
  refine List.filter_congr fun id mem => ?_
  have made := Array.getElem?_eq_getElem (List.mem_range.mp mem)
  simp only [means, made, Option.any_some, (linked.made id _ made).2]

theorem countsUses {v : VariableOutline} (is : g.variableOutline b = some v) :
    g.CountsUses b v := by
  obtain ⟨binding, found, rfl⟩ := Option.map_eq_some_iff.mp is
  have meant := linked.referencesOf_eq_filter b
  rw [referencesOf, found, Option.elim_some] at meant
  have writing : binding.references.toList.countP
    (fun id => g.references[id]?.any (·.usage.write)) =
      g.references.toList.countP fun r => r.resolved = some b ∧ r.usage.write := by
    rw [meant, List.countP_filter, ← countP_range g.references]
    refine List.countP_congr fun id _ => ?_
    cases g.references[id]? <;> simp [and_comm]
  refine ⟨⟨binding, found, rfl, rfl⟩, ?_, writing⟩
  calc binding.references.size = binding.references.toList.length := Array.length_toList.symm
    _ = g.references.toList.countP fun r => r.resolved = some b := by
      rw [meant, ← List.countP_eq_length_filter, countP_range]

theorem tellsScope (h : g.WellFormed t) (stacked : g.Stacked) (is : g.outline t = some o)
    (found : g.scopes[s]? = some scope) :
    ∃ inner, o.preorder[s]? = some inner ∧ g.TellsScope t o.preorder scope inner := by
  obtain ⟨children, told, inside⟩ := h.outlineFrom_eq found
  have known (b : BindingId) (mem : b ∈ scope.bindings.toList) :
      ∃ v, g.variableOutline b = some v := by
    obtain ⟨binding, is, -⟩ := Option.map_eq_some_iff.mp
      ((h.home_iff s scope found b).mp (Array.mem_toList_iff.mp mem))
    exact ⟨_, by rw [variableOutline, is]; rfl⟩
  have named (id : ReferenceId) (mem : id ∈ scope.through.toList) :
      ∃ name, g.references[id]?.map (·.name) = some name := by
    have passing : id ∈ g.through s := by simpa [Graph.through, found] using mem
    obtain ⟨r, made, -⟩ := (linked.mem_through s).mp passing
    exact ⟨r.name, by rw [made]; rfl⟩
  refine ⟨_, h.getElem?_preorder stacked is told, rfl, rfl, rfl, ?_, ?_, ?_⟩
  · exact (forall₂_filterMap known).imp fun b v is => linked.countsUses is
  · refine (forall₂_filterMap named).imp fun id name is => ?_
    obtain ⟨r, made, is⟩ := Option.map_eq_some_iff.mp is
    exact ⟨r, made, is.symm⟩
  · exact inside.imp fun child inner told => h.getElem?_preorder stacked is told

/-- The sum of the counts of some variables is the number of the references that mean them. -/
theorem sum_eq {bindings : List BindingId} {owned : List VariableOutline}
    (counts : List.Forall₂ g.CountsUses bindings owned) :
    owned.foldr (fun v n => v.references + n) 0 = (bindings.flatMap g.referencesOf).length := by
  induction counts with
  | nil => rfl
  | @cons b v bindings owned counted _ ih =>
    have here : v.references = (g.referencesOf b).length := by
      rw [counted.references_eq, ← countP_range, linked.referencesOf_eq_filter,
        List.countP_eq_length_filter]
    rw [List.foldr_cons, ih, here, List.flatMap_cons, List.length_append]

end Linked

def owners (g : Graph) : List BindingId := (List.range g.scopes.size).flatMap g.bindingsOf

theorem WellFormed.homeOf?_eq (h : g.WellFormed t) {b : BindingId} (mem : b ∈ g.bindingsOf s) :
    g.homeOf? b = some s := by
  cases found : g.scopes[s]? with
  | none => simp [bindingsOf, found] at mem
  | some scope => exact (h.home_iff s scope found b).mp (by simpa [bindingsOf, found] using mem)

theorem WellFormed.nodup_owners (h : g.WellFormed t) : g.owners.Nodup := by
  refine List.nodup_flatMap.mpr ⟨fun s mem => ?_, List.nodup_range.imp fun other => ?_⟩
  · have found := Array.getElem?_eq_getElem (List.mem_range.mp mem)
    simpa [bindingsOf, found] using (h.distinct s _ found).of_map
  · rintro b mem mem'
    exact other (Option.some.inj ((h.homeOf?_eq mem).symm.trans (h.homeOf?_eq mem')))

namespace Linked

variable (linked : g.Linked t) (h : g.WellFormed t) {id : ReferenceId} {r : Reference}
    {b : BindingId}

include linked h

theorem mem_owners (made : g.references[id]? = some r) (meant : r.resolved = some b) :
    b ∈ g.owners := by
  obtain ⟨k, s, -, reached, accepted, -⟩ := linked.exists_accepts made meant
  have lt : s < g.scopes.size := Nat.lt_of_le_of_lt
    (Nat.le_trans (Nat.le_add_right s k) (ancestor?_le linked.parent_lt reached))
    (linked.made id r made).1
  have found := Array.getElem?_eq_getElem lt
  have declared := (declared?_of_accepts? t accepted).1
  simp only [declared?, found, Option.bind_some] at declared
  refine List.mem_flatMap.mpr ⟨s, List.mem_range.mpr lt, ?_⟩
  simpa [bindingsOf, found] using ((h.names_iff s _ found r.name b).mp declared).1

/-- A reference that means something does not pass through the outermost scope. -/
theorem not_mem_through_zero (made : g.references[id]? = some r) (meant : r.resolved = some b) :
    id ∉ g.through 0 := by
  obtain ⟨binding, found⟩ := linked.exists_binding made meant
  intro mem
  refine ((linked.mem_through_iff_isBelow made meant found 0).mp mem).2 (h.isBelow_zero ?_)
  obtain ⟨s, mem, owned⟩ := List.mem_flatMap.mp (linked.mem_owners h made meant)
  have home := h.homeOf?_eq owned
  simp only [homeOf?, found, Option.map_some, Option.some.injEq] at home
  exact home ▸ List.mem_range.mp mem

/-- A reference that means nothing passes through the outermost scope, unless the way there is too
long. -/
theorem mem_through_zero (short : ∀ s < g.scopes.size, g.ancestor? scopeWalkLimit s = none)
    (made : g.references[id]? = some r) (meaningless : r.resolved = none) : id ∈ g.through 0 := by
  obtain ⟨inside, told⟩ := linked.made id r made
  obtain ⟨k, reached⟩ := h.isBelow_zero inside
  have visited : k < scopeWalkLimit := by
    by_contra far
    obtain ⟨n, rfl⟩ := Nat.exists_eq_add_of_le (Nat.not_lt.mp far)
    rw [ancestor?_add, short r.scope inside] at reached
    cases reached
  have refused : ∀ s ∈ g.chain scopeWalkLimit (some r.scope), g.accepts? t s r = none := by
    rw [told, meaning?, snd_route] at meaningless
    exact List.findSome?_eq_none_iff.mp meaningless
  refine (linked.mem_through_of_made made 0).mpr ?_
  rw [passed, route_of_refuses g t refused, mem_chain linked.parent_lt inside]
  exact ⟨k, visited, reached⟩

/-- Each reference is listed once: with the binding it means or in the outermost scope. -/
theorem perm_references (short : ∀ s < g.scopes.size, g.ancestor? scopeWalkLimit s = none) :
    (g.owners.flatMap g.referencesOf ++ g.through 0).Perm (List.range g.references.size) := by
  refine (List.perm_ext_iff_of_nodup ?_ List.nodup_range).mpr fun id => ?_
  · refine List.nodup_append'.mpr ⟨List.nodup_flatMap.mpr ⟨fun b _ => ?_, ?_⟩, ?_, ?_⟩
    · exact (linked.resolved.references_increasing b).imp Nat.ne_of_lt
    · refine h.nodup_owners.imp fun other => ?_
      intro id mem mem'
      obtain ⟨r, made, meant⟩ := (linked.mem_referencesOf _).mp mem
      obtain ⟨r', made', meant'⟩ := (linked.mem_referencesOf _).mp mem'
      obtain rfl := Option.some.inj (made.symm.trans made')
      exact other (Option.some.inj (meant.symm.trans meant'))
    · exact (linked.resolved.through_increasing 0).imp Nat.ne_of_lt
    · intro id mem
      obtain ⟨b, -, mem⟩ := List.mem_flatMap.mp mem
      obtain ⟨r, made, meant⟩ := (linked.mem_referencesOf b).mp mem
      exact linked.not_mem_through_zero h made meant
  · rw [List.mem_append, List.mem_flatMap, List.mem_range]
    constructor
    · rintro (⟨b, -, mem⟩ | mem)
      · obtain ⟨r, made, -⟩ := (linked.mem_referencesOf b).mp mem
        exact (Array.getElem?_eq_some_iff.mp made).1
      · exact linked.resolved.through_made 0 id mem
    · intro lt
      have made := Array.getElem?_eq_getElem lt
      cases meant : g.references[id].resolved with
      | none => exact .inr (linked.mem_through_zero h short made meant)
      | some b =>
        exact .inl ⟨b, linked.mem_owners h made meant,
          (linked.mem_referencesOf b).mpr ⟨_, made, meant⟩⟩

/-- The counts of all variables in the outline are those of the bindings of all scopes. -/
theorem referenceCount_eq (stacked : g.Stacked) (is : g.outline t = some o) :
    Outline.referenceCount o.preorder = (g.owners.flatMap g.referencesOf).length := by
  refine linked.sum_eq (List.rel_flatMap (h.inside_zero ▸ h.forall₂_preorder stacked is) ?_)
  intro s inner told
  have lt := lt_size_of_outlineFrom told
  obtain ⟨_, at_, tells⟩ := linked.tellsScope h stacked is (Array.getElem?_eq_getElem lt)
  obtain rfl := Option.some.inj (at_.symm.trans (h.getElem?_preorder stacked is told))
  simpa [bindingsOf, lt] using tells.owned

theorem outlinesAll (stacked : g.Stacked) (is : g.outline t = some o) : g.OutlinesAll t o where
  one_each := by
    rw [← (h.forall₂_preorder stacked is).length_eq, h.inside_zero, List.length_range]
  tells s scope found := linked.tellsScope h stacked is found
  conserves short := by
    have passing : o.through.length = (g.through 0).length := by
      have found := Array.getElem?_eq_getElem h.size_pos
      obtain ⟨_, at_, tells⟩ := linked.tellsScope h stacked is found
      obtain rfl := Option.some.inj (at_.symm.trans (h.getElem?_preorder stacked is is))
      simpa [Graph.through, found] using tells.through.length_eq.symm
    rw [linked.referenceCount_eq h stacked is, passing, ← List.length_append,
      (linked.perm_references h short).length_eq, List.length_range]

end Linked
end Graph
end Scope

namespace Capture

/-- Whatever text and whatever surroundings, there is an outline, and it loses nothing. -/
theorem outlinesAll_ofText (text : List Char) (environment : Scope.Environment) :
    ∃ outline, (Program.ofText text environment).graph.outline
        (Program.ofText text environment).tree = some outline ∧
      (Program.ofText text environment).graph.OutlinesAll (Program.ofText text environment).tree
        outline := by
  have wellFormed := (wellFormed_ofText text environment).2
  have linked := Scope.Graph.linked_ofTree (Grammar.parseText text).tree environment
  have stacked := Scope.Graph.stacked_ofTree (Grammar.parseText text).tree environment
  obtain ⟨_, is, -⟩ := wellFormed.outlineFrom_eq (Array.getElem?_eq_getElem wellFormed.size_pos)
  exact ⟨_, is, linked.outlinesAll wellFormed stacked is⟩

end Capture
end LoopCapture
