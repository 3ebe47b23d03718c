import LoopCapture.Proofs.Scope.Sides
import LoopCapture.Proofs.Scope.Parts

/-!
# The order in which uses are recorded

A walk leaves a trace: the uses it records, in groups, one group for each part that it enters. Where
the parts of a node stand one after the other, so do the uses in them. The parts of an assertion, of
a pattern and of the head of a loop may be walked in another order than that of the text, and only
uses in different parts of such a node can be recorded out of order.
-/

namespace LoopCapture
open Syntax (Child NodeId Shape Tree)

namespace Scope

/-- What a pattern is taken apart into, in the order in which it is walked: the targets, then the
types, and then what is evaluated. -/
def PatternParts.row (parts : PatternParts) : List NodeId :=
  parts.targets.toList.map (·.identifier) ++ parts.types.toList ++ parts.evaluated.toList

/-- Nothing but names: no default, no type, and nothing that is evaluated. -/
def PatternParts.IsPlain (parts : PatternParts) : Prop :=
  (∀ target ∈ parts.targets, target.defaults = 0) ∧ parts.types = #[] ∧ parts.evaluated = #[]

/-- The declarator gives names to variables, and neither a first value nor a type. -/
def IsPlainDeclarator (t : Tree) (declarator : NodeId) : Prop :=
  ∀ target annotated init,
    t.nodes.shape? declarator = some (.variableDeclarator target annotated init) →
    (PatternParts.ofNode t target).IsPlain ∧ annotated = none ∧ init = none

/-- The declaration is what a `for`-`in` or `for`-`of` assigns in each round. -/
inductive IsRoundHead (t : Tree) (declaration : NodeId) : Prop
  | forIn {loop : NodeId} {right body : Child} {isAwait : Bool}
    (is : t.nodes.shape? loop = some (.forIn (some declaration) right body isAwait))
  | forOf {loop : NodeId} {right body : Child} {isAwait : Bool}
    (is : t.nodes.shape? loop = some (.forOf (some declaration) right body isAwait))

/-- What each round of a loop with these declarators in its head assigns. -/
def roundTargets (t : Tree) (declarators : List NodeId) : List NodeId :=
  match declarators.head?.bind (t.nodes.shape? ·) with
  | some (.variableDeclarator target ..) =>
    (PatternParts.ofNode t target).targets.toList.map (·.identifier)
  | _ => []

/-- Identifiers that may be used in another order than that of the text, the first one before the
other. -/
inductive Crosses (t : Tree) (x y : NodeId) : Prop
  /-- An assertion in angle brackets. Its expression is walked before its type. -/
  | cast {node expression type : NodeId}
    (is : t.nodes.shape? node = some (.typeCast (some expression) (some type)))
    (behind : ¬ t.nodes.EndsBefore expression type)
    (below : t.Below x expression) (below' : t.Below y type)
  /-- Two parts of a pattern. Its targets are walked before its types, and these before what it
  evaluates. -/
  | pattern {node part part' : NodeId}
    (listed : [part, part'].Sublist (PatternParts.ofNode t (some node)).row)
    (behind : ¬ t.nodes.EndsBefore part part')
    (below : t.Below x part) (below' : t.Below y part')
  /-- The head of a loop over keys or elements that does not just name its variables. It is walked
  before what each round assigns. -/
  | head {declaration : NodeId} {word : Syntax.DeclarationWord} {declarators : List NodeId}
    (head : IsRoundHead t declaration)
    (is : t.nodes.shape? declaration = some (.variableDeclaration word declarators))
    (rich : ∃ declarator ∈ declarators, ¬ IsPlainDeclarator t declarator)
    (below : t.Below x declaration) (assigned : y ∈ roundTargets t declarators)

namespace Reference

/-- The use is recorded for an identifier that a walk enters from the node. -/
structure IsOf (t : Tree) (r : Reference) (node : NodeId) : Prop where
  inside : r.identifier = node ∨ t.Entered r.identifier node
  shape : t.nodes.shape? r.identifier = some (.identifier r.name)
  start : t.startOf r.identifier = r.start

/-- The use stands no later than the other one, unless the two may cross. -/
def ComesBefore (t : Tree) (r r' : Reference) : Prop :=
  r.start ≤ r'.start ∨ Crosses t r.identifier r'.identifier

variable {t : Tree} {r r' : Reference} {node outer : NodeId}

theorem ComesBefore.refl (r : Reference) : r.ComesBefore t r := .inl (Nat.le_refl _)

theorem IsOf.below (h : r.IsOf t node) : t.Below r.identifier node := by
  obtain is | entered := h.inside
  · exact is ▸ .refl _
  · exact entered.under.below

theorem IsOf.enter (h : r.IsOf t node) (inside : node = outer ∨ t.Entered node outer) :
    r.IsOf t outer := by
  refine { h with inside := ?_ }
  obtain rfl | entered := inside
  · exact h.inside
  · obtain rfl | entered' := h.inside
    · exact .inr entered
    · exact .inr (entered'.trans entered)

theorem IsOf.identifier_eq {name : String} (h : r.IsOf t node)
    (is : t.nodes.shape? node = some (.identifier name)) : r.identifier = node := by
  refine h.inside.resolve_right fun entered => ?_
  obtain ⟨child, -, mem⟩ := Relation.TransGen.tail'_iff.mp entered
  simp [Tree.walked, is, Shape.walked, Shape.children, Shape.slots] at mem

end Reference

/-- The uses in the first node may be recorded before those in the other one. -/
def MayPrecede (t : Tree) (node other : NodeId) : Prop :=
  ∀ ⦃r r'⦄, Reference.IsOf t r node → Reference.IsOf t r' other → r.ComesBefore t r'

section Placed

variable {t : Tree} {size : Nat} (nested : t.IsNested size) (ordered : t.IsOrdered)

include nested ordered

/-- Where a node ends before another one starts, so do the uses in it. -/
theorem mayPrecede_of_endsBefore {node other : NodeId} (before : t.nodes.EndsBefore node other) :
    MayPrecede t node other := by
  intro r r' h h'
  have name (r : Reference) {node : NodeId} (h : r.IsOf t node) :
      ∃ c n : Syntax.Node, t.nodes[node]? = some n ∧ n.Nests c ∧ c.start < c.stop ∧
        c.start = r.start := by
    obtain ⟨c, found, extent⟩ := ordered.named r.identifier r.name
      (by simp [Tree.nameText?, Tree.shape?, h.shape, Shape.nameText?])
    obtain ⟨n, found', nests⟩ := nested.nests_of_below h.below found
    exact ⟨c, n, found', nests, extent, by simpa [Tree.startOf, found] using h.start⟩
  obtain ⟨c, n, found, nests, extent, starts⟩ := name r h
  obtain ⟨c', m, found', nests', -, starts'⟩ := name r' h'
  obtain ⟨n', m', is, is', ends⟩ := before
  obtain rfl := Option.some.inj (found.symm.trans is)
  obtain rfl := Option.some.inj (found'.symm.trans is')
  have le := nests.2 extent
  have stop := ends (Nat.lt_of_le_of_lt nests.1 (Nat.lt_of_lt_of_le extent le))
  refine .inl ?_
  calc r.start = c.start := starts.symm
    _ ≤ c.stop := Nat.le_of_lt extent
    _ ≤ n.stop := le
    _ ≤ m.start := stop
    _ ≤ c'.start := nests'.1
    _ = r'.start := starts'

theorem pairwise_mayPrecede_row (node : NodeId) : (t.row node).Pairwise (MayPrecede t) := by
  unfold Tree.row
  cases is : t.nodes.shape? node with
  | none => exact .nil
  | some shape =>
    exact List.Pairwise.imp (mayPrecede_of_endsBefore nested ordered) (ordered.rows node shape is)

theorem pairwise_mayPrecede_cast {node : NodeId} {expression type : Child}
    (is : t.nodes.shape? node = some (.typeCast expression type)) :
    (expression.toList ++ type.toList).Pairwise (MayPrecede t) := by
  cases expression with
  | none => cases type <;> simp
  | some expression =>
    cases type with
    | none => simp
    | some type =>
      refine List.pairwise_pair.mpr ?_
      by_cases before : t.nodes.EndsBefore expression type
      · exact mayPrecede_of_endsBefore nested ordered before
      · exact fun r r' h h' => .inr (.cast is before h.below h'.below)

theorem pairwise_mayPrecede_parts (node : NodeId) :
    (PatternParts.ofNode t (some node)).row.Pairwise (MayPrecede t) := by
  refine List.pairwise_iff_forall_sublist.mpr fun {part part'} listed => ?_
  by_cases before : t.nodes.EndsBefore part part'
  · exact mayPrecede_of_endsBefore nested ordered before
  · exact fun r r' h h' => .inr (.pattern listed before h.below h'.below)

end Placed

/-- The uses are recorded in groups, one for each of the nodes, and in order within each group. -/
inductive Traces (t : Tree) : List Reference → List NodeId → Prop
  | nil : Traces t [] []
  | cons {uses rest : List Reference} {node : NodeId} {nodes : List NodeId}
      (of : ∀ r ∈ uses, r.IsOf t node) (ordered : uses.Pairwise (Reference.ComesBefore t))
      (h : Traces t rest nodes) : Traces t (uses ++ rest) (node :: nodes)

namespace Traces

variable {t : Tree} {uses uses' : List Reference} {node : NodeId} {nodes nodes' : List NodeId}

theorem single (of : ∀ r ∈ uses, r.IsOf t node)
    (ordered : uses.Pairwise (Reference.ComesBefore t)) : Traces t uses [node] := by
  simpa using cons of ordered nil

theorem append (h : Traces t uses nodes) (h' : Traces t uses' nodes') :
    Traces t (uses ++ uses') (nodes ++ nodes') := by
  induction h with
  | nil => exact h'
  | cons of ordered _ ih => simpa using cons of ordered ih

/-- No use need be recorded for a node. -/
theorem sublist (h : Traces t uses nodes) (fewer : nodes.Sublist nodes') :
    Traces t uses nodes' := by
  induction fewer generalizing uses with
  | slnil => exact h
  | cons node _ ih =>
    rw [← List.nil_append uses]
    exact cons (by simp) .nil (ih h)
  | cons_cons node _ ih =>
    cases h with
    | cons of ordered h => exact cons of ordered (ih h)

theorem exists_isOf (h : Traces t uses nodes) {r : Reference} (mem : r ∈ uses) :
    ∃ node ∈ nodes, r.IsOf t node := by
  induction h with
  | nil => cases mem
  | cons of ordered _ ih =>
    obtain here | later := List.mem_append.mp mem
    · exact ⟨_, List.mem_cons_self, of r here⟩
    · obtain ⟨node, mem', isOf⟩ := ih later
      exact ⟨node, List.mem_cons_of_mem _ mem', isOf⟩

/-- What is recorded for nodes whose uses may follow each other is in order. -/
theorem pairwise (h : Traces t uses nodes) (row : nodes.Pairwise (MayPrecede t)) :
    uses.Pairwise (Reference.ComesBefore t) := by
  induction h with
  | nil => exact .nil
  | cons of inner h ih =>
    obtain ⟨before, row⟩ := List.pairwise_cons.mp row
    refine List.pairwise_append.mpr ⟨inner, ih row, fun r mem r' mem' => ?_⟩
    obtain ⟨other, listed, isOf⟩ := h.exists_isOf mem'
    exact before other listed (of r mem) isOf

/-- What is recorded for the parts of a node is recorded for the node. -/
theorem fold (h : Traces t uses nodes)
    (inside : ∀ part ∈ nodes, part = node ∨ t.Entered part node)
    (row : nodes.Pairwise (MayPrecede t)) : Traces t uses [node] := by
  refine single (fun r mem => ?_) (h.pairwise row)
  obtain ⟨part, listed, isOf⟩ := h.exists_isOf mem
  exact isOf.enter (inside part listed)

end Traces
end Scope
end LoopCapture
