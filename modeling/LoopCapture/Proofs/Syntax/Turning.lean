import LoopCapture.Proofs.Syntax.Descent
import Mathlib.Logic.Function.Iterate

/-!
# Which nodes become patterns

A literal in front of an equals sign becomes a pattern, and with it what stands in it as a target.
In a table where children precede their parents these are the nodes that are reached from the
literal, so it does not matter in which order they are turned, nor how often. A loop that keeps the
nodes that are still to be turned on a stack does what a recursion over them does.
-/

namespace LoopCapture.Syntax

section Stack

variable {σ : Type}

/-- One round of a loop: the top of the stack is visited, and what the visit asks for takes its
place. -/
def visitTop (visit : σ → NodeId → σ × List NodeId) : σ × List NodeId → σ × List NodeId
  | (s, []) => (s, [])
  | (s, node :: rest) => ((visit s node).1, (visit s node).2 ++ rest)

/-- A walk visits a node and then walks what the visit asks for, as long as all is well. -/
structure WalksBy (walk : σ → NodeId → σ) (visit : σ → NodeId → σ × List NodeId)
    (well : σ → Prop) : Prop where
  keeps : ∀ s node, well s → well (visit s node).1
  lower : ∀ s node, well s → ∀ next ∈ (visit s node).2, next < node
  walk_eq : ∀ s node, well s → walk s node = (visit s node).2.foldl walk (visit s node).1

variable {walk : σ → NodeId → σ} {visit : σ → NodeId → σ × List NodeId} {well : σ → Prop}

/-- Nodes on top of the stack are done with one after the other, if each of them is. -/
theorem exists_rounds_of_each {nodes : List NodeId}
    (each : ∀ node ∈ nodes, ∀ s rest, well s → well (walk s node) ∧
      ∃ n, (visitTop visit)^[n] (s, node :: rest) = (walk s node, rest))
    (s : σ) (rest : List NodeId) (h : well s) : well (nodes.foldl walk s) ∧
      ∃ n, (visitTop visit)^[n] (s, nodes ++ rest) = (nodes.foldl walk s, rest) := by
  induction nodes generalizing s with
  | nil => exact ⟨h, 0, rfl⟩
  | cons node nodes ih =>
    obtain ⟨first, n, rounds⟩ := each node List.mem_cons_self s (nodes ++ rest) h
    obtain ⟨last, m, rounds'⟩ :=
      ih (fun x mem => each x (List.mem_cons_of_mem node mem)) (walk s node) first
    refine ⟨last, m + n, ?_⟩
    rw [List.cons_append, Function.iterate_add_apply, rounds]
    exact rounds'

/-- After some rounds the loop has done what the walk does and has gone back to the rest of the
stack. -/
theorem WalksBy.exists_rounds (visits : WalksBy walk visit well) (s : σ) (node : NodeId)
    (rest : List NodeId) (h : well s) : well (walk s node) ∧
      ∃ n, (visitTop visit)^[n] (s, node :: rest) = (walk s node, rest) := by
  induction node using Nat.strongRecOn generalizing s rest with
  | ind node ih =>
    obtain ⟨after, n, rounds⟩ := exists_rounds_of_each
      (fun x mem => ih x (visits.lower s node h x mem)) (visit s node).1 rest
      (visits.keeps s node h)
    rw [visits.walk_eq s node h]
    exact ⟨after, n + 1, rounds⟩

end Stack

namespace Shape

/-- The nodes that are given a value where a node of the shape is: the elements of an array, the
members of an object and their values, what is spread, and the left side of an equals sign. -/
def targets : Shape → List NodeId
  | .array elements | .arrayPattern elements => elements.filterMap id
  | .object properties | .objectPattern properties => properties
  | .property p => p.value.toList
  | .spread argument | .restElement argument => argument.toList
  | .assignment (.punctuator .eq) left _ | .assignmentPattern left _ => left.toList
  | _ => []

/-- The literals that there is a pattern for. -/
def becomesPattern : Shape → Bool
  | .array _ | .object _ | .spread _ | .assignment (.punctuator .eq) .. => true
  | _ => false

/-- The patterns that there is a literal for. -/
abbrev isPattern : Shape → Bool
  | .arrayPattern _ | .objectPattern _ | .restElement _ | .assignmentPattern .. => true
  | _ => false

def literalTargets (shape : Shape) : List NodeId := if shape.isPattern then [] else shape.targets

variable {shape : Shape}

theorem targets_asPattern (shape : Shape) : shape.asPattern.1.targets = shape.targets := by
  unfold asPattern
  split <;> rfl

theorem becomesPattern_asPattern (shape : Shape) : shape.asPattern.1.becomesPattern = false := by
  unfold asPattern
  split <;> first | rfl | (unfold becomesPattern; split <;> simp_all)

theorem asPattern_of_not_becomesPattern (h : shape.becomesPattern = false) :
    shape.asPattern.1 = shape := by
  unfold asPattern
  split <;> first | rfl | cases h

theorem asPattern_asPattern (shape : Shape) :
    shape.asPattern.1.asPattern.1 = shape.asPattern.1 :=
  asPattern_of_not_becomesPattern (becomesPattern_asPattern shape)

theorem asPattern_snd_subset (shape : Shape) : shape.asPattern.2 ⊆ shape.targets := by
  unfold asPattern
  split <;> simp [targets]

theorem asPattern_snd_asPattern_subset (shape : Shape) :
    shape.asPattern.1.asPattern.2 ⊆ shape.asPattern.2 := by
  cases becomes : shape.becomesPattern with
  | false => rw [asPattern_of_not_becomesPattern becomes]; exact List.Subset.refl _
  | true => unfold becomesPattern at becomes; split at becomes <;> simp_all [asPattern]

/-- Of a pattern the targets are left as they are. -/
theorem targets_subset_of_not_isPattern (h : shape.isPattern = false) :
    shape.targets ⊆ shape.asPattern.2 := by
  unfold targets
  split <;> simp_all [asPattern, isPattern]

theorem targets_subset_children (shape : Shape) : shape.targets ⊆ shape.children := by
  unfold targets
  split <;> simp [children, slots]

end Shape

def Node.asPattern (n : Node) : Node := { n with shape := n.shape.asPattern.1 }

namespace NodeTable

/-- The nodes that a node of the shape leads to. -/
def leadsTo (t : NodeTable) (next : Shape → List NodeId) (x : NodeId) : List NodeId :=
  (t.shape? x).elim [] next

/-- The one node is the other, or the other leads to a node from which it is reached. -/
def Reached (t : NodeTable) (next : Shape → List NodeId) : NodeId → NodeId → Prop :=
  Relation.ReflTransGen fun x y => x ∈ t.leadsTo next y

/-- The one node stands in the other as a target. -/
abbrev InTarget (t : NodeTable) : NodeId → NodeId → Prop := t.Reached Shape.targets

/-- The one node stands in the other as a target, and there is no pattern on the way to it. -/
abbrev InLiteral (t : NodeTable) : NodeId → NodeId → Prop := t.Reached Shape.literalTargets

/-- The one node becomes a pattern with the other. -/
abbrev TurnsWith (t : NodeTable) : NodeId → NodeId → Prop := t.Reached (·.asPattern.2)

def ChildrenPrecede (t : NodeTable) : Prop := ∀ x, ∀ child ∈ t.childrenOf x, child < x

variable {t t' s : NodeTable} {next next' : Shape → List NodeId} {x y z e : NodeId}

theorem mem_leadsTo : x ∈ t.leadsTo next y ↔ ∃ shape, t.shape? y = some shape ∧ x ∈ next shape := by
  cases is : t.shape? y <;> simp [leadsTo, is]

theorem Reached.refl (x : NodeId) : t.Reached next x x := Relation.ReflTransGen.refl

theorem Reached.trans (h : t.Reached next x y) (h' : t.Reached next y z) : t.Reached next x z :=
  Relation.ReflTransGen.trans h h'

theorem Reached.step (mem : x ∈ t.leadsTo next y) (h : t.Reached next y z) : t.Reached next x z :=
  Relation.ReflTransGen.head mem h

theorem Reached.eq_or_step (h : t.Reached next x e) :
    x = e ∨ ∃ y ∈ t.leadsTo next e, t.Reached next x y :=
  (Relation.ReflTransGen.cases_tail h).imp Eq.symm fun ⟨y, way, mem⟩ => ⟨y, mem, way⟩

theorem Reached.mono (fewer : ∀ y, t.leadsTo next y ⊆ t'.leadsTo next' y) (h : t.Reached next x y) :
    t'.Reached next' x y :=
  Relation.ReflTransGen.mono (fun _ y mem => fewer y mem) _ _ h

theorem leadsTo_subset (fewer : ∀ shape, next shape ⊆ next' shape) (y : NodeId) :
    t.leadsTo next y ⊆ t.leadsTo next' y := by
  cases is : t.shape? y <;> simp [leadsTo, is, fewer]

theorem ChildrenPrecede.lt_of_target (precede : t.ChildrenPrecede)
    (mem : x ∈ t.leadsTo Shape.targets y) : x < y := by
  obtain ⟨shape, is, mem⟩ := mem_leadsTo.mp mem
  exact precede y x (by simpa [childrenOf, is] using shape.targets_subset_children mem)

theorem ChildrenPrecede.lt_of_turn (precede : t.ChildrenPrecede)
    (mem : x ∈ t.leadsTo (·.asPattern.2) y) : x < y :=
  precede.lt_of_target (leadsTo_subset Shape.asPattern_snd_subset y mem)

/-- The second table is the first one with some nodes, and no others, turned into patterns. -/
structure TurnsInto (t : NodeTable) (some : NodeId → Prop) (t' : NodeTable) : Prop where
  turned : ∀ x, some x → t'[x]? = t[x]?.map Node.asPattern
  kept : ∀ x, ¬ some x → t'[x]? = t[x]?

variable {D D' : NodeId → Prop}

theorem TurnsInto.refl (t : NodeTable) : t.TurnsInto (fun _ => False) t := ⟨by simp, by simp⟩

theorem TurnsInto.congr (h : t.TurnsInto D t') (same : ∀ x, D x ↔ D' x) : t.TurnsInto D' t' where
  turned x is := h.turned x ((same x).mpr is)
  kept x not := h.kept x (mt (same x).mp not)

/-- There is only one table with these nodes turned. -/
theorem TurnsInto.unique (h : t.TurnsInto D t') (h' : t.TurnsInto D s) : t' = s := by
  refine Array.ext_getElem? fun x => ?_
  by_cases is : D x
  · rw [h.turned x is, h'.turned x is]
  · rw [h.kept x is, h'.kept x is]

/-- Turning a node turns this one node, whether it was turned before or not. -/
theorem getElem?_reshape_asPattern {shape : Shape} (is : s.shape? e = some shape) (x : NodeId) :
    (s.reshape e shape.asPattern.1)[x]? = if x = e then s[x]?.map Node.asPattern else s[x]? := by
  obtain ⟨n, found, rfl⟩ := Option.map_eq_some_iff.mp is
  rw [reshape, Array.getElem?_modify]
  by_cases here : x = e
  · subst here
    simp [found, Node.asPattern]
  · rw [if_neg (Ne.symm here), if_neg here]

theorem TurnsInto.reshape (h : t.TurnsInto D s) {shape : Shape} (is : s.shape? e = some shape) :
    t.TurnsInto (fun x => D x ∨ x = e) (s.reshape e shape.asPattern.1) where
  turned x which := by
    rw [getElem?_reshape_asPattern is]
    by_cases old : D x
    · rw [h.turned x old, Option.map_map, ite_eq_right_iff.mpr fun _ => ?_]
      refine congrArg (Option.map · _) (funext fun n => ?_)
      simp [Node.asPattern, Shape.asPattern_asPattern]
    · rw [if_pos (which.resolve_left old), h.kept x old]
  kept x not := by
    rw [getElem?_reshape_asPattern is, if_neg (not <| .inr ·), h.kept x (not <| .inl ·)]

theorem TurnsInto.shape?_eq_none (h : t.TurnsInto D s) : s.shape? x = none ↔ t.shape? x = none := by
  by_cases turned : D x
  · simp [NodeTable.shape?, h.turned x turned]
  · simp [NodeTable.shape?, h.kept x turned]

theorem TurnsInto.absent (h : t.TurnsInto D s) (none : s.shape? e = none) :
    t.TurnsInto (fun x => D x ∨ x = e) s where
  turned x which := by
    by_cases old : D x
    · exact h.turned x old
    · obtain rfl := which.resolve_left old
      have absent : t[x]? = Option.none := by
        simpa [NodeTable.shape?] using h.shape?_eq_none.mp none
      rw [h.kept x old, absent, Option.map_none]
  kept x not := h.kept x (not <| .inl ·)

theorem TurnsInto.childrenOf (h : t.TurnsInto D s) (x : NodeId) :
    s.childrenOf x = t.childrenOf x := by
  by_cases turned : D x
  · cases is : t[x]? <;>
      simp [NodeTable.childrenOf, NodeTable.shape?, h.turned x turned, is, Node.asPattern,
        children_asPattern]
  · rw [NodeTable.childrenOf, NodeTable.childrenOf, NodeTable.shape?, NodeTable.shape?,
      h.kept x turned]

theorem TurnsInto.childrenPrecede (h : t.TurnsInto D s) (precede : t.ChildrenPrecede) :
    s.ChildrenPrecede := by
  intro x
  rw [h.childrenOf]
  exact precede x

theorem TurnsInto.shape? (h : t.TurnsInto D s) {shape : Shape} (is : s.shape? x = some shape) :
    ∃ old, t.shape? x = some old ∧ shape.asPattern.2 ⊆ old.asPattern.2 ∧ (¬ D x → shape = old) := by
  obtain ⟨n, found, rfl⟩ := Option.map_eq_some_iff.mp is
  by_cases turned : D x
  · obtain ⟨m, was, rfl⟩ := Option.map_eq_some_iff.mp ((h.turned x turned).symm.trans found)
    refine ⟨m.shape, by simp [NodeTable.shape?, was], ?_, fun other => absurd turned other⟩
    exact Shape.asPattern_snd_asPattern_subset m.shape
  · rw [h.kept x turned] at found
    exact ⟨n.shape, by simp [NodeTable.shape?, found], List.Subset.refl _, fun _ => rfl⟩

/-- Where children precede, all targets of a node are below it. -/
theorem asPattern_of_shape? (precede : s.ChildrenPrecede) {shape : Shape}
    (is : s.shape? e = some shape) :
    s.asPattern e = shape.asPattern.2.foldl NodeTable.asPattern
      (s.reshape e shape.asPattern.1) := by
  rw [asPattern, is]
  refine List.foldl_ext _ _ _ fun t target mem => if_pos ?_
  exact precede.lt_of_turn (mem_leadsTo.mpr ⟨shape, is, mem⟩)

/-- Up to a place, the nodes that are turned lead to such only. -/
def ClosedUpTo (t : NodeTable) (D : NodeId → Prop) (e : NodeId) : Prop :=
  ∀ x ≤ e, D x → ∀ y ∈ t.leadsTo (·.asPattern.2) x, D y

theorem ClosedUpTo.turnsWith (closed : t.ClosedUpTo D e) (precede : t.ChildrenPrecede) (h : D e)
    (way : t.TurnsWith x e) : x ≤ e ∧ D x := by
  induction way using Relation.ReflTransGen.head_induction_on with
  | refl => exact ⟨Nat.le_refl e, h⟩
  | head mem _ ih =>
    exact ⟨Nat.le_of_lt (Nat.lt_of_lt_of_le (precede.lt_of_turn mem) ih.1),
      closed _ ih.1 ih.2 _ mem⟩

/-- One literal after the other is turned. The condition on what was turned before is kept, since
what is reached from a node leads to nothing else. -/
theorem turnsInto_foldl_of_each {nodes : List NodeId}
    (each : ∀ y ∈ nodes, ∀ D s, t.TurnsInto D s → t.ClosedUpTo D y →
      t.TurnsInto (fun x => D x ∨ t.TurnsWith x y) (s.asPattern y))
    (h : t.TurnsInto D s) (closed : ∀ y ∈ nodes, t.ClosedUpTo D y) :
    t.TurnsInto (fun x => D x ∨ ∃ y ∈ nodes, t.TurnsWith x y)
      (nodes.foldl NodeTable.asPattern s) := by
  induction nodes generalizing D s with
  | nil => exact h.congr (by simp)
  | cons y rest ih =>
    have first := each y List.mem_cons_self D s h (closed y List.mem_cons_self)
    refine (ih (fun z mem => each z (List.mem_cons_of_mem y mem)) first fun z mem x le => ?_).congr
      fun x => by simp [or_assoc]
    rintro (old | way) w leads
    · exact .inl (closed z (List.mem_cons_of_mem y mem) x le old w leads)
    · exact .inr (.step leads way)

theorem TurnsInto.asPattern (precede : t.ChildrenPrecede) (h : t.TurnsInto D s)
    (closed : t.ClosedUpTo D e) :
    t.TurnsInto (fun x => D x ∨ t.TurnsWith x e) (s.asPattern e) := by
  induction e using Nat.strongRecOn generalizing D s with
  | ind e ih =>
    cases is : s.shape? e with
    | none =>
      have alone (x : NodeId) : D x ∨ t.TurnsWith x e ↔ D x ∨ x = e := by
        refine or_congr_right ⟨fun way => ?_, fun same => by rw [same]; exact .refl e⟩
        refine way.eq_or_step.resolve_right ?_
        simp [leadsTo, h.shape?_eq_none.mp is]
      rw [NodeTable.asPattern, is]
      exact (h.absent is).congr fun x => (alone x).symm
    | some shape =>
      obtain ⟨old, was, fewer, same⟩ := h.shape? is
      have lower (y : NodeId) (mem : y ∈ shape.asPattern.2) : y ∈ t.leadsTo (·.asPattern.2) e :=
        mem_leadsTo.mpr ⟨old, was, fewer mem⟩
      have closed' (y : NodeId) (mem : y ∈ shape.asPattern.2) :
          t.ClosedUpTo (fun x => D x ∨ x = e) y := by
        have lt := precede.lt_of_turn (lower y mem)
        rintro x le (turned | rfl) z leads
        · exact .inl (closed x (Nat.le_trans le (Nat.le_of_lt lt)) turned z leads)
        · exact absurd lt (Nat.not_lt.mpr le)
      rw [asPattern_of_shape? (h.childrenPrecede precede) is]
      refine (turnsInto_foldl_of_each (fun y mem D s h closed =>
        ih y (precede.lt_of_turn (lower y mem)) h closed) (h.reshape is) closed').congr fun x => ?_
      constructor
      · rintro ((turned | rfl) | ⟨y, mem, way⟩)
        · exact .inl turned
        · exact .inr (.refl x)
        · exact .inr (way.tail (lower y mem))
      · rintro (turned | way)
        · exact .inl (.inl turned)
        by_cases here : D e
        · exact .inl (.inl (closed.turnsWith precede here way).2)
        · obtain rfl | ⟨y, mem, way⟩ := way.eq_or_step
          · exact .inl (.inr rfl)
          · obtain ⟨other, was', mem⟩ := mem_leadsTo.mp mem
            obtain rfl := Option.some.inj (was.symm.trans was')
            exact .inr ⟨y, same here ▸ mem, way⟩

theorem turnsInto_asPattern (precede : t.ChildrenPrecede) (e : NodeId) :
    t.TurnsInto (t.TurnsWith · e) (t.asPattern e) :=
  ((TurnsInto.refl t).asPattern precede fun _ _ => False.elim).congr fun _ => by rw [false_or]

theorem turnsInto_foldl (precede : t.ChildrenPrecede) (nodes : List NodeId) :
    t.TurnsInto (fun x => ∃ y ∈ nodes, t.TurnsWith x y) (nodes.foldl NodeTable.asPattern t) :=
  (turnsInto_foldl_of_each (fun _ _ _ _ h closed => h.asPattern precede closed) (.refl t)
    fun _ _ _ _ => False.elim).congr fun _ => by rw [false_or]

/-- Whichever of several literals is turned first, the outcome is the same. -/
theorem foldl_asPattern_perm (precede : t.ChildrenPrecede) {nodes nodes' : List NodeId}
    (same : ∀ x, x ∈ nodes ↔ x ∈ nodes') :
    nodes.foldl NodeTable.asPattern t = nodes'.foldl NodeTable.asPattern t :=
  (turnsInto_foldl precede nodes).unique <|
    (turnsInto_foldl precede nodes').congr fun _ => by simp only [same]

/-- A literal that was turned stays as it is. -/
theorem asPattern_asPattern (precede : t.ChildrenPrecede) (e : NodeId) :
    (t.asPattern e).asPattern e = t.asPattern e := by
  have once := turnsInto_asPattern precede e
  have closed : t.ClosedUpTo (t.TurnsWith · e) e := fun x _ way y leads => .step leads way
  exact ((once.asPattern precede closed).congr fun x => or_self_iff).unique once

/-- A node is turned, and its targets are still to be turned, the last one first. -/
def turn (t : NodeTable) (node : NodeId) : NodeTable × List NodeId :=
  match t.shape? node with
  | none => (t, [])
  | some shape => (t.reshape node shape.asPattern.1, shape.asPattern.2.reverse)

theorem walksBy_turn : WalksBy NodeTable.asPattern turn ChildrenPrecede where
  keeps t node precede := by
    unfold turn
    split
    · exact precede
    · rename_i shape is
      exact ((TurnsInto.refl t).reshape is).childrenPrecede precede
  lower t node precede next mem := by
    unfold turn at mem
    split at mem
    · cases mem
    · rename_i shape is
      exact precede.lt_of_turn (mem_leadsTo.mpr ⟨shape, is, List.mem_reverse.mp mem⟩)
  walk_eq t node precede := by
    unfold turn
    split
    · rename_i none
      rw [NodeTable.asPattern, none]
      rfl
    · rename_i shape is
      rw [asPattern_of_shape? precede is]
      exact foldl_asPattern_perm (((TurnsInto.refl t).reshape is).childrenPrecede precede) fun x =>
        List.mem_reverse.symm

/-- The stack is used up after some rounds, and by then the literal is turned. -/
theorem exists_rounds_turn (precede : t.ChildrenPrecede) (node : NodeId) :
    ∃ n, (visitTop turn)^[n] (t, [node]) = (t.asPattern node, []) :=
  (walksBy_turn.exists_rounds t node [] precede).2

end NodeTable

end LoopCapture.Syntax
