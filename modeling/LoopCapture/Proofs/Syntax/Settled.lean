import LoopCapture.Proofs.Syntax.Turning

/-!
# Settled patterns

A pattern is settled when no literal stands in it as a target. Where all patterns are, turning a
literal settles it: what is not reached because a pattern is in the way was settled before.

A declaration has a name for a target or a pattern with such targets, from the beginning: none of
its nodes was a literal. So no node of it changes while the table grows and literals become
patterns.
-/

namespace LoopCapture.Syntax
namespace NodeTable

variable {t t' : NodeTable} {D : NodeId → Prop} {x y e : NodeId}

/-- No literal stands in the node as a target. -/
def Settled (t : NodeTable) (e : NodeId) : Prop :=
  ∀ x shape, t.InTarget x e → t.shape? x = some shape → shape.becomesPattern = false

def PatternsSettled (t : NodeTable) : Prop :=
  ∀ x shape, t.shape? x = some shape → shape.isPattern = true → t.Settled x

theorem Settled.below (h : t.Settled e) (way : t.InTarget x e) : t.Settled x :=
  fun y shape way' => h y shape (way'.trans way)

theorem TurnsInto.leadsTo_targets (h : t.TurnsInto D t') (x : NodeId) :
    t'.leadsTo Shape.targets x = t.leadsTo Shape.targets x := by
  by_cases turned : D x
  · cases is : t[x]? <;>
      simp [leadsTo, NodeTable.shape?, h.turned x turned, is, Node.asPattern,
        Shape.targets_asPattern]
  · rw [leadsTo, leadsTo, NodeTable.shape?, NodeTable.shape?, h.kept x turned]

theorem TurnsInto.inTarget (h : t.TurnsInto D t') (way : t'.InTarget x y) : t.InTarget x y :=
  way.mono fun y => h.leadsTo_targets y ▸ List.Subset.refl _

/-- A literal in the later table is one that was not turned. -/
theorem TurnsInto.becomesPattern (h : t.TurnsInto D t') {shape : Shape}
    (is : t'.shape? x = some shape) (becomes : shape.becomesPattern = true) :
    ¬ D x ∧ t.shape? x = some shape := by
  have other : ¬ D x := by
    intro turned
    obtain ⟨n, found, rfl⟩ := Option.map_eq_some_iff.mp is
    obtain ⟨m, -, rfl⟩ := Option.map_eq_some_iff.mp ((h.turned x turned).symm.trans found)
    exact absurd becomes (by simp [Node.asPattern, Shape.becomesPattern_asPattern])
  exact ⟨other, by rwa [NodeTable.shape?, ← h.kept x other]⟩

theorem Settled.turnsInto (h : t.Settled e) (turns : t.TurnsInto D t') : t'.Settled e := by
  intro x shape way is
  refine Bool.eq_false_iff.mpr fun becomes => ?_
  have other := h x shape (turns.inTarget way) (turns.becomesPattern is becomes).2
  exact Bool.eq_false_iff.mp other becomes

/-- A way down through targets may be gone as far as the first pattern on it. -/
theorem Reached.or_inTarget {next next' : Shape → List NodeId}
    (fewer : ∀ shape, next shape ⊆ shape.targets)
    (same : ∀ shape, shape.isPattern = false → next shape ⊆ next' shape)
    (way : t.Reached next x e) : t.Reached next' x e ∨
      ∃ y shape, t.shape? y = some shape ∧ shape.isPattern = true ∧ t.InTarget x y := by
  induction way using Relation.ReflTransGen.head_induction_on with
  | refl => exact .inl (.refl e)
  | @head x y mem _ ih =>
    have target : x ∈ t.leadsTo Shape.targets y := leadsTo_subset fewer y mem
    obtain way | ⟨p, shape, is, isPattern, inside⟩ := ih
    · obtain ⟨shape, is, mem⟩ := mem_leadsTo.mp mem
      cases isPattern : shape.isPattern with
      | true => exact .inr ⟨y, shape, is, isPattern, .step target (.refl y)⟩
      | false => exact .inl (.step (mem_leadsTo.mpr ⟨shape, is, same shape isPattern mem⟩) way)
    · exact .inr ⟨p, shape, is, isPattern, .step target inside⟩

/-- A literal is settled when it was turned. -/
theorem settled_asPattern (precede : t.ChildrenPrecede) (patterns : t.PatternsSettled)
    (e : NodeId) :
    (t.asPattern e).Settled e := by
  have turns := turnsInto_asPattern precede e
  intro x shape way is
  refine Bool.eq_false_iff.mpr fun becomes => ?_
  obtain ⟨other, was⟩ := turns.becomesPattern is becomes
  obtain turned | ⟨p, pattern, isThere, isPattern, inside⟩ :=
    (turns.inTarget way).or_inTarget (fun _ => List.Subset.refl _)
      fun _ => Shape.targets_subset_of_not_isPattern
  · exact other turned
  · exact absurd becomes (by simp [patterns p pattern isThere isPattern x shape inside was])

theorem patternsSettled_asPattern (precede : t.ChildrenPrecede) (patterns : t.PatternsSettled)
    (e : NodeId) : (t.asPattern e).PatternsSettled := by
  have turns := turnsInto_asPattern precede e
  intro x shape is isPattern
  by_cases turned : t.TurnsWith x e
  · -- a node that is turned stands in the literal, which is settled by now
    refine (settled_asPattern precede patterns e).below (turned.mono fun y => ?_)
    rw [turns.leadsTo_targets]
    exact leadsTo_subset Shape.asPattern_snd_subset y
  · refine Settled.turnsInto (patterns x shape ?_ isPattern) turns
    rwa [NodeTable.shape?, ← turns.kept x turned]

/-- What stands in a pattern already, or not in the literal at all, stays what it was. -/
theorem getElem?_asPattern_of_not_inLiteral (precede : t.ChildrenPrecede)
    (patterns : t.PatternsSettled) (outside : ¬ t.InLiteral x e) :
    (t.asPattern e)[x]? = t[x]? := by
  have turns := turnsInto_asPattern precede e
  by_cases turned : t.TurnsWith x e
  swap
  · exact turns.kept x turned
  have fewer (shape : Shape) (isLiteral : shape.isPattern = false) :
      shape.asPattern.2 ⊆ shape.literalTargets := by
    simpa [Shape.literalTargets, isLiteral] using shape.asPattern_snd_subset
  obtain inside | ⟨p, pattern, isThere, isPattern, inside⟩ :=
    turned.or_inTarget Shape.asPattern_snd_subset fewer
  · exact absurd inside outside
  · rw [turns.turned x turned]
    cases found : t[x]? with
    | none => rfl
    | some n =>
      have settled := patterns p pattern isThere isPattern x n.shape inside
        (by simp [shape?, found])
      simp [Node.asPattern, Shape.asPattern_of_not_becomesPattern settled]

theorem linkFrom_congr (same : ∀ x, t'.childrenOf x = t.childrenOf x) (root n : Nat)
    (parents : Array Child) : linkFrom t' root n parents = linkFrom t root n parents := by
  induction n generalizing parents with
  | zero => rfl
  | succ n ih =>
    have here : (t'.shape? n).elim [] Shape.children = (t.shape? n).elim [] Shape.children := same n
    rw [linkFrom, linkFrom, here, ih]

/-- What turning a node into a pattern does. The loop over a stack of nodes comes to its end. Nodes
stay where they are, with their children and parents, and what does not stand in the literal as a
target stays as it is. No literal is left among the targets, so doing it again does nothing. -/
structure Repatterns (t : NodeTable) (e : NodeId) : Prop where
  terminates : ∃ rounds, (visitTop turn)^[rounds] (t, [e]) = (t.asPattern e, [])
  spans : ∀ x : NodeId, (t.asPattern e)[x]?.map Node.span = t[x]?.map Node.span
  childrenOf : ∀ x, (t.asPattern e).childrenOf x = t.childrenOf x
  parents : ∀ root, (Tree.ofTable (t.asPattern e) root).parents = (Tree.ofTable t root).parents
  elsewhere : ∀ x, ¬ t.InLiteral x e → (t.asPattern e)[x]? = t[x]?
  settled : (t.asPattern e).Settled e
  again : (t.asPattern e).asPattern e = t.asPattern e

theorem PatternsSettled.repatterns (patterns : t.PatternsSettled) (precede : t.ChildrenPrecede)
    (e : NodeId) : t.Repatterns e := by
  obtain ⟨size, children⟩ := asPattern_same e t
  have turns := turnsInto_asPattern precede e
  refine ⟨exists_rounds_turn precede e, fun x => ?_, children, fun root => ?_,
    fun x => getElem?_asPattern_of_not_inLiteral precede patterns,
    settled_asPattern precede patterns e, asPattern_asPattern precede e⟩
  · by_cases turned : t.TurnsWith x e
    · rw [turns.turned x turned, Option.map_map]
      rfl
    · rw [turns.kept x turned]
  · simp only [Tree.ofTable, size, linkFrom_congr children]

theorem patternsSettled_empty : PatternsSettled #[] := by
  simp [PatternsSettled, shape?]

/-- A new node does not change what stands in the old ones. -/
theorem leadsTo_push_of_lt {n : Node} {next : Shape → List NodeId} (lt : x < t.size) :
    leadsTo (t.push n) next x = t.leadsTo next x := by
  rw [leadsTo, leadsTo, shape?, shape?, Array.getElem?_push_lt lt, Array.getElem?_eq_getElem lt]

theorem InTarget.of_push {n : Node} (precede : t.ChildrenPrecede) (lt : e < t.size)
    (way : InTarget (t.push n) x e) : t.InTarget x e ∧ x < t.size := by
  induction way using Relation.ReflTransGen.head_induction_on with
  | refl => exact ⟨.refl e, lt⟩
  | head mem _ ih =>
    rw [leadsTo_push_of_lt ih.2] at mem
    exact ⟨.step mem ih.1, Nat.lt_trans (precede.lt_of_target mem) ih.2⟩

theorem Settled.push {n : Node} (h : t.Settled e) (precede : t.ChildrenPrecede) (lt : e < t.size) :
    Settled (t.push n) e := by
  intro x shape way is
  obtain ⟨way, lt⟩ := InTarget.of_push precede lt way
  refine h x shape way ?_
  rwa [shape?, Array.getElem?_push_lt lt, ← Array.getElem?_eq_getElem lt] at is

theorem PatternsSettled.push {n : Node} (patterns : t.PatternsSettled) (precede : t.ChildrenPrecede)
    (settled : n.shape.isPattern = true → Settled (t.push n) t.size) :
    PatternsSettled (t.push n) := by
  intro x shape is isPattern
  obtain ⟨m, found, rfl⟩ := Option.map_eq_some_iff.mp is
  rw [Array.getElem?_push] at found
  split at found
  · rename_i new
    exact new ▸ settled (Option.some.inj found ▸ isPattern)
  · have lt := (Array.getElem?_eq_some_iff.mp found).1
    exact (patterns x m.shape (by simp [shape?, found]) isPattern).push precede lt

theorem shape?_reshape {node : NodeId} {old : Shape} (was : t.shape? node = some old) (new : Shape)
    (x : NodeId) : (t.reshape node new).shape? x = if x = node then some new else t.shape? x := by
  obtain ⟨n, found, -⟩ := Option.map_eq_some_iff.mp was
  rw [shape?, reshape, Array.getElem?_modify]
  by_cases here : x = node
  · subst here
    simp [found]
  · rw [if_neg (Ne.symm here), if_neg here, shape?]

/-- A name leads to no target, whatever name it is. -/
theorem PatternsSettled.refer {node : NodeId} {name : String} (patterns : t.PatternsSettled)
    (was : t.shape? node = some (.propertyName name)) :
    (t.reshape node (.identifier name)).PatternsSettled := by
  have shapes (x : NodeId) : (t.reshape node (.identifier name)).shape? x =
      if x = node then some (.identifier name) else t.shape? x :=
    shape?_reshape was _ x
  have leads (x : NodeId) : (t.reshape node (.identifier name)).leadsTo Shape.targets x =
      t.leadsTo Shape.targets x := by
    rw [leadsTo, leadsTo, shapes]
    split
    · rename_i here
      simp [here, was, Shape.targets]
    · rfl
  intro x shape is isPattern y inner way is'
  rw [shapes] at is is'
  split at is
  · cases is
    cases isPattern
  split at is'
  · cases is'
    rfl
  · exact patterns x shape is isPattern y inner (way.mono fun z => leads z ▸ List.Subset.refl _) is'

/-- What a node of a pattern stands as. -/
inductive Standing where
  | target
  | member
deriving DecidableEq, Repr

/-- The node is that of a name, a pattern or a parameter, with nothing but such nodes for targets.
-/
inductive Declares (t : NodeTable) : Standing → NodeId → Prop
  | name {standing : Standing} {x : NodeId} {name : String}
    (is : t.shape? x = some (.identifier name)) : Declares t standing x
  | word {standing : Standing} {x : NodeId} {name : String}
    (is : t.shape? x = some (.propertyName name)) : Declares t standing x
  | object {standing : Standing} {x : NodeId} {members : List NodeId}
    (is : t.shape? x = some (.objectPattern members))
    (each : ∀ y ∈ members, Declares t .member y) : Declares t standing x
  | array {standing : Standing} {x : NodeId} {elements : List Child}
    (is : t.shape? x = some (.arrayPattern elements))
    (each : ∀ y, some y ∈ elements → Declares t .target y) : Declares t standing x
  | default {standing : Standing} {x : NodeId} {left right : Child}
    (is : t.shape? x = some (.assignmentPattern left right))
    (each : ∀ y, left = some y → Declares t .target y) : Declares t standing x
  | rest {standing : Standing} {x : NodeId} {argument : Child}
    (is : t.shape? x = some (.restElement argument))
    (each : ∀ y, argument = some y → Declares t .target y) : Declares t standing x
  | parameter {standing : Standing} {x : NodeId} {pattern type : Child} {optional : Bool}
    (is : t.shape? x = some (.parameter pattern optional type))
    (each : ∀ y, pattern = some y → Declares t .target y) : Declares t standing x
  | property {x : NodeId} {p : Property} (is : t.shape? x = some (.property p))
    (each : ∀ y, p.value = some y → Declares t .target y) : Declares t .member x

variable {t t' : NodeTable} {standing : Standing} {x y e : NodeId}

/-- What is given a value may be a member of an object pattern. -/
theorem Declares.member (h : t.Declares .target x) : t.Declares .member x := by
  cases h with
  | name is => exact .name is
  | word is => exact .word is
  | object is each => exact .object is each
  | array is each => exact .array is each
  | default is each => exact .default is each
  | rest is each => exact .rest is each
  | parameter is each => exact .parameter is each

/-- A node of a declaration is no literal, and its targets are nodes of the declaration. -/
theorem Declares.becomesPattern {shape : Shape} (h : t.Declares standing x)
    (is : t.shape? x = some shape) : shape.becomesPattern = false := by
  cases h with | _ was => exact Option.some.inj (was.symm.trans is) ▸ rfl

theorem Declares.target (h : t.Declares standing y) (mem : x ∈ t.leadsTo Shape.targets y) :
    ∃ standing, t.Declares standing x := by
  cases h with
  | name is | word is | parameter is => simp [leadsTo, is, Shape.targets] at mem
  | object is each => exact ⟨_, each x (by simpa [leadsTo, is, Shape.targets] using mem)⟩
  | array is each => exact ⟨_, each x (by simpa [leadsTo, is, Shape.targets] using mem)⟩
  | default is each | rest is each | property is each =>
    exact ⟨_, each x (by simpa [leadsTo, is, Shape.targets] using mem)⟩

/-- The pattern of a declaration is settled from the beginning. -/
theorem Declares.settled (h : t.Declares standing e) : t.Settled e := by
  have inside (x : NodeId) (way : t.InTarget x e) : ∃ standing, t.Declares standing x := by
    induction way using Relation.ReflTransGen.head_induction_on with
    | refl => exact ⟨standing, h⟩
    | head mem _ ih => exact ih.elim fun _ h => h.target mem
  intro x shape way is
  obtain ⟨_, declares⟩ := inside x way
  exact declares.becomesPattern is

/-- The later table has the nodes of the earlier one. Those that are no literals are what they were,
but for the name of a property that became that of a variable. -/
structure Upholds (t t' : NodeTable) : Prop where
  size_le : t.size ≤ t'.size
  shapes : ∀ x shape, t.shape? x = some shape → shape.becomesPattern = false →
    t'.shape? x = some shape ∨
      ∃ name, shape = .propertyName name ∧ t'.shape? x = some (.identifier name)

theorem Upholds.refl (t : NodeTable) : t.Upholds t := ⟨Nat.le_refl _, fun _ _ is _ => .inl is⟩

theorem Upholds.trans {t'' : NodeTable} (h : t.Upholds t') (h' : t'.Upholds t'') :
    t.Upholds t'' where
  size_le := Nat.le_trans h.size_le h'.size_le
  shapes x shape is other := by
    obtain same | ⟨name, rfl, is'⟩ := h.shapes x shape is other
    · exact h'.shapes x shape same other
    · refine .inr ⟨name, rfl, (h'.shapes x _ is' rfl).resolve_right ?_⟩
      simp

theorem upholds_push (t : NodeTable) (n : Node) : t.Upholds (t.push n) where
  size_le := by simp
  shapes x shape is _ := by
    obtain ⟨m, found, rfl⟩ := Option.map_eq_some_iff.mp is
    have lt := (Array.getElem?_eq_some_iff.mp found).1
    refine .inl ?_
    rw [shape?, Array.getElem?_push_lt lt, ← Array.getElem?_eq_getElem lt, found, Option.map_some]

theorem upholds_refer {node : NodeId} {name : String}
    (was : t.shape? node = some (.propertyName name)) :
    t.Upholds (t.reshape node (.identifier name)) where
  size_le := by simp [reshape]
  shapes x shape is _ := by
    rw [shape?_reshape was]
    split
    · rename_i here
      exact .inr ⟨name, Option.some.inj (is.symm.trans (here ▸ was)), rfl⟩
    · exact .inl is

theorem upholds_asPattern (t : NodeTable) (node : NodeId) : t.Upholds (t.asPattern node) := by
  refine asPattern_induction (fun s node shape h is => h.trans ⟨by simp [reshape], ?_⟩)
    (.refl t) node
  intro x other was stays
  rw [shape?_reshape is]
  split
  · rename_i here
    obtain rfl := Option.some.inj (is.symm.trans (here ▸ was))
    rw [Shape.asPattern_of_not_becomesPattern stays]
    exact .inl rfl
  · exact .inl was

/-- Going back to the size of an earlier table takes none of its nodes away. -/
theorem Upholds.shrink (h : t.Upholds t') : t.Upholds (t'.shrink t.size) where
  size_le := by simp [h.size_le]
  shapes x shape is other := by
    obtain ⟨n, found, -⟩ := Option.map_eq_some_iff.mp is
    have lt := (Array.getElem?_eq_some_iff.mp found).1
    have same : shape? (t'.shrink t.size) x = t'.shape? x := by
      grind [Array.shrink_eq_take, shape?]
    rw [same]
    exact h.shapes x shape is other

/-- Declarations stay as they are. -/
theorem Declares.uphold (h : t.Declares standing x) (upholds : t.Upholds t') :
    t'.Declares standing x := by
  -- names apart, a node of a pattern has the shape that it had
  have stays {x : NodeId} {shape : Shape} (is : t.shape? x = some shape)
      (other : shape.becomesPattern = false) (named : ∀ name, shape ≠ .propertyName name) :
      t'.shape? x = some shape :=
    (upholds.shapes x shape is other).resolve_right fun ⟨other, same, _⟩ => named other same
  induction h with
  | name is => exact .name (stays is rfl (by simp))
  | word is =>
    obtain is | ⟨name, -, is⟩ := upholds.shapes _ _ is rfl
    · exact .word is
    · exact .name is
  | object is _ ih => exact .object (stays is rfl (by simp)) ih
  | array is _ ih => exact .array (stays is rfl (by simp)) ih
  | default is _ ih => exact .default (stays is rfl (by simp)) ih
  | rest is _ ih => exact .rest (stays is rfl (by simp)) ih
  | parameter is _ ih => exact .parameter (stays is rfl (by simp)) ih
  | property is _ ih => exact .property (stays is rfl (by simp)) ih

end NodeTable
end LoopCapture.Syntax
