import LoopCapture.Proofs.Syntax.Owned

/-!
# Spans, and nodes that get another shape

Where nodes stand does not depend on what they are. Turning literals into patterns gives other
shapes to a node and to nodes below it, and moves none.
-/

namespace LoopCapture.Syntax
open Text (Offset)

/-- The node begins no later than the other and, if the other has an extent, ends no earlier. -/
def Node.Nests (n inner : Node) : Prop :=
  n.start ≤ inner.start ∧ (inner.start < inner.stop → inner.stop ≤ n.stop)

theorem Node.Nests.congr {n n' c c' : Node} (h : n.Nests c) (same : n'.span = n.span)
    (same' : c'.span = c.span) : n'.Nests c' := by
  obtain ⟨start, stop⟩ := Text.Span.mk.inj same
  obtain ⟨start', stop'⟩ := Text.Span.mk.inj same'
  exact ⟨by rw [start, start']; exact h.1, by rw [start', stop, stop']; exact h.2⟩

/-- The node starts no later than a token, and what it spans was consumed before. -/
structure Node.Precedes (n : Node) (here lastEnd : Offset) : Prop where
  start_le_stop : n.start ≤ n.stop
  start_le : n.start ≤ here
  stop_le : n.start < n.stop → n.stop ≤ lastEnd

theorem Node.Precedes.congr {n n' : Node} {here lastEnd : Offset} (h : n.Precedes here lastEnd)
    (same : n.span = n'.span) : n'.Precedes here lastEnd := by
  obtain ⟨start, stop⟩ := Text.Span.mk.inj same
  exact ⟨start ▸ stop ▸ h.start_le_stop, start ▸ h.start_le, start ▸ stop ▸ h.stop_le⟩

/-- What stands before the body of a function: its name, its parameters and the type of its
results. -/
def Function.head (f : Function) : List NodeId :=
  (f.name :: f.typeParameters.map some ++ f.params.map some ++ [f.returnType]).filterMap id

/-- The children of a node that a walk may enter. It enters no key that is a mere name, and of what
an import or an export names only the variable that is exported. -/
def Shape.walked : Shape → List NodeId
  | .property p => if p.computed then p.key.toList ++ p.value.toList else p.value.toList
  | .importSpecifier .. | .importDeclaration .. => []
  | .exportSpecifier target _ => target.toList
  | shape => shape.children

/-- The children of a node that stand one after the other. In an assertion in angle brackets the
expression comes last, and the type of a parameter stands before its default. -/
def Shape.row : Shape → List NodeId
  | .typeCast .. | .parameter .. => []
  | shape => shape.walked

theorem Shape.walked_sublist_children (shape : Shape) : shape.walked.Sublist shape.children := by
  unfold walked
  split
  · rename_i p
    have both : (Shape.property p).children = p.key.toList ++ p.value.toList := by
      cases key : p.key <;> cases value : p.value <;> simp [children, slots, key, value]
    rw [both]
    split
    · exact .refl _
    · exact List.sublist_append_right _ _
  · exact List.nil_sublist _
  · exact List.nil_sublist _
  · rename_i target exported
    cases target <;> cases exported <;> simp [children, slots]
  · exact .refl _

theorem Shape.row_sublist_walked (shape : Shape) : shape.row.Sublist shape.walked := by
  unfold row
  split
  · exact List.nil_sublist _
  · exact List.nil_sublist _
  · exact .refl _

/-- The shape is that of a name or a loop only where the other one is, and has the same children one
after the other. -/
structure Shape.Resembles (shape old : Shape) : Prop where
  nameText?_eq : shape.nameText? = old.nameText?
  isLoop_eq : shape.isLoop = old.isLoop
  row_eq : shape.row = old.row

theorem Shape.Resembles.refl (shape : Shape) : shape.Resembles shape :=
  ⟨rfl, rfl, rfl⟩

theorem Shape.Resembles.trans {shape middle old : Shape} (h : shape.Resembles middle)
    (h' : middle.Resembles old) : shape.Resembles old :=
  ⟨h.nameText?_eq.trans h'.nameText?_eq, h.isLoop_eq.trans h'.isLoop_eq,
    h.row_eq.trans h'.row_eq⟩

namespace NodeTable

/-- The node takes up no room, or ends before the other one starts. -/
def EndsBefore (t : NodeTable) (id other : NodeId) : Prop :=
  ∃ n m : Node, t[id]? = some n ∧ t[other]? = some m ∧ (n.start < n.stop → n.stop ≤ m.start)

def EndsBeforeAll (t : NodeTable) (id : NodeId) (others : List NodeId) : Prop :=
  ∀ other ∈ others, t.EndsBefore id other

def AllEndBefore (t : NodeTable) (nodes : List NodeId) (other : NodeId) : Prop :=
  ∀ id ∈ nodes, t.EndsBefore id other

def Apart (t : NodeTable) (nodes others : List NodeId) : Prop :=
  ∀ id ∈ nodes, t.EndsBeforeAll id others

/-- The nodes stand one after the other. -/
def InRow (t : NodeTable) (nodes : List NodeId) : Prop :=
  nodes.Pairwise t.EndsBefore

section InRow

variable {t : NodeTable} {id other : NodeId} {nodes nodes' others others' : List NodeId}

@[simp] theorem endsBeforeAll_nil : t.EndsBeforeAll id [] := by simp [EndsBeforeAll]

@[simp] theorem endsBeforeAll_cons :
    t.EndsBeforeAll id (other :: others) ↔ t.EndsBefore id other ∧ t.EndsBeforeAll id others :=
  List.forall_mem_cons

@[simp] theorem endsBeforeAll_append : t.EndsBeforeAll id (others ++ others') ↔
    t.EndsBeforeAll id others ∧ t.EndsBeforeAll id others' :=
  List.forall_mem_append

@[simp] theorem allEndBefore_nil : t.AllEndBefore [] other := by simp [AllEndBefore]

@[simp] theorem allEndBefore_cons :
    t.AllEndBefore (id :: nodes) other ↔ t.EndsBefore id other ∧ t.AllEndBefore nodes other :=
  List.forall_mem_cons

@[simp] theorem allEndBefore_append : t.AllEndBefore (nodes ++ nodes') other ↔
    t.AllEndBefore nodes other ∧ t.AllEndBefore nodes' other :=
  List.forall_mem_append

@[simp] theorem apart_nil_left : t.Apart [] others := by simp [Apart]

@[simp] theorem apart_nil_right : t.Apart nodes [] := by simp [Apart]

@[simp] theorem apart_cons_left :
    t.Apart (id :: nodes) others ↔ t.EndsBeforeAll id others ∧ t.Apart nodes others :=
  List.forall_mem_cons

@[simp] theorem apart_cons_right :
    t.Apart nodes (other :: others) ↔ t.AllEndBefore nodes other ∧ t.Apart nodes others := by
  simp only [Apart, endsBeforeAll_cons]
  exact forall₂_and

@[simp] theorem apart_append_left :
    t.Apart (nodes ++ nodes') others ↔ t.Apart nodes others ∧ t.Apart nodes' others :=
  List.forall_mem_append

@[simp] theorem apart_append_right :
    t.Apart nodes (others ++ others') ↔ t.Apart nodes others ∧ t.Apart nodes others' := by
  simp only [Apart, endsBeforeAll_append]
  exact forall₂_and

@[simp] theorem inRow_nil : t.InRow [] := .nil

@[simp] theorem inRow_cons : t.InRow (id :: nodes) ↔ t.EndsBeforeAll id nodes ∧ t.InRow nodes :=
  List.pairwise_cons

@[simp] theorem inRow_append :
    t.InRow (nodes ++ nodes') ↔ t.InRow nodes ∧ t.InRow nodes' ∧ t.Apart nodes nodes' :=
  List.pairwise_append

end InRow

/-- The parts of a node, if it is a loop, start after the node does. -/
def OpensLoop (t : NodeTable) (n : Node) : Prop :=
  n.shape.isLoop = true → ∀ child ∈ n.shape.children,
    ∃ c : Node, t[child]? = some c ∧ n.start < c.start

/-- Some nodes, all made after the first `base` ones, have another shape in the second table, and no
more children. None becomes a name or a loop. -/
structure Reshapes (base : Nat) (t t' : NodeTable) : Prop where
  size_eq : t'.size = t.size
  spans : ∀ id : NodeId, t'[id]?.map (·.span) = t[id]?.map (·.span)
  childrenOf : ∀ id, ∀ child ∈ t'.childrenOf id, child ∈ t.childrenOf id
  resembles : ∀ id shape, t'.shape? id = some shape → ∀ old, t.shape? id = some old →
    shape.Resembles old
  older : ∀ id < base, t'[id]? = t[id]?

variable {base : Nat} {t t' t'' : NodeTable}

theorem Reshapes.refl (base : Nat) (t : NodeTable) : Reshapes base t t where
  size_eq := rfl
  spans _ := rfl
  childrenOf _ _ mem := mem
  resembles _ _ is _ was := Option.some.inj (is.symm.trans was) ▸ .refl _
  older _ _ := rfl

/-- A node of the one table stands in the other one as well. -/
theorem Reshapes.find (h : Reshapes base t t') {id : NodeId} {n : Node} (found : t[id]? = some n) :
    ∃ n' : Node, t'[id]? = some n' ∧ n'.span = n.span := by
  simpa [found] using h.spans id

theorem Reshapes.exists_shape? (h : Reshapes base t t') {id : NodeId} {old : Shape}
    (was : t.shape? id = some old) : ∃ shape, t'.shape? id = some shape := by
  obtain ⟨n, found, -⟩ := Option.map_eq_some_iff.mp was
  obtain ⟨n', found', -⟩ := h.find found
  exact ⟨n'.shape, by simp [shape?, found']⟩

theorem Reshapes.trans (h : Reshapes base t t') (h' : Reshapes base t' t'') :
    Reshapes base t t'' where
  size_eq := h'.size_eq.trans h.size_eq
  spans id := (h'.spans id).trans (h.spans id)
  childrenOf id child mem := h.childrenOf id child (h'.childrenOf id child mem)
  resembles id shape is old was := by
    obtain ⟨middle, between⟩ := h.exists_shape? was
    exact (h'.resembles id shape is middle between).trans (h.resembles id middle between old was)
  older id lt := (h'.older id lt).trans (h.older id lt)

/-- Each node of the second table has a place in the first one, with at least its children. -/
theorem Reshapes.exists_of_mem (h : Reshapes base t t') {n : Node} (mem : n ∈ t') :
    ∃ old ∈ t, old.span = n.span ∧ (∀ child ∈ n.shape.children, child ∈ old.shape.children) ∧
      n.shape.Resembles old.shape := by
  obtain ⟨id, found⟩ := Array.getElem?_of_mem mem
  obtain ⟨old, found', same⟩ : ∃ old : Node, t[id]? = some old ∧ old.span = n.span := by
    simpa [found] using (h.spans id).symm
  refine ⟨old, Array.mem_of_getElem? found', same, fun child inner => ?_,
    h.resembles id _ (by simp [shape?, found]) _ (by simp [shape?, found'])⟩
  have fewer := h.childrenOf id child
  simp only [NodeTable.childrenOf, shape?, found, found', Option.map_some, Option.elim_some]
    at fewer
  exact fewer inner

/-- Giving a shape to one node. -/
theorem reshapes_reshape {node : NodeId} (le : base ≤ node) {shape : Shape}
    (fewer : ∀ child ∈ shape.children, child ∈ t.childrenOf node)
    (resembles : ∀ old, t.shape? node = some old → shape.Resembles old) :
    Reshapes base t (t.reshape node shape) where
  size_eq := by simp [reshape]
  spans id := by
    simp only [reshape, Array.getElem?_modify]
    split
    · rw [Option.map_map]
      rfl
    · rfl
  childrenOf id child mem := by
    rw [childrenOf_reshape] at mem
    split at mem
    · rename_i here
      exact here.1 ▸ fewer child mem
    · exact mem
  resembles id new is old was := by
    obtain ⟨n, found, rfl⟩ := Option.map_eq_some_iff.mp was
    simp only [shape?, reshape, Array.getElem?_modify, found, Option.map_some] at is
    split at is
    · rename_i here
      obtain rfl := Option.some.inj is
      exact resembles n.shape (here ▸ was)
    · exact Option.some.inj is ▸ .refl n.shape
  older id lt := by
    rw [reshape, Array.getElem?_modify, if_neg (Nat.ne_of_gt (Nat.lt_of_lt_of_le lt le))]

theorem mem_children_of_mem_targets {shape : Shape} {target : NodeId}
    (mem : target ∈ shape.asPattern.2) : target ∈ shape.children := by
  unfold Shape.asPattern at mem
  split at mem <;> simp_all [Shape.children, Shape.slots]

/-- Names and loops are no literals, and what is in a literal stays in its order. -/
theorem resembles_asPattern (shape : Shape) : shape.asPattern.1.Resembles shape := by
  unfold Shape.asPattern
  split <;> exact ⟨rfl, rfl, rfl⟩

/-- Turning literals into patterns changes nodes from the literal down. -/
theorem reshapes_asPattern {node : NodeId} (le : base ≤ node)
    (closed : ∀ id ≥ base, ∀ child ∈ t.childrenOf id, base ≤ child) :
    Reshapes base t (t.asPattern node) := by
  induction node using Nat.strongRecOn generalizing t with
  | ind node ih =>
    rw [asPattern]
    split
    · exact .refl base t
    · rename_i shape is
      have children : t.childrenOf node = shape.children := by simp [childrenOf, is]
      have first : Reshapes base t (t.reshape node shape.asPattern.1) :=
        reshapes_reshape le (fun child mem => by rwa [children, ← children_asPattern shape])
          fun old was => Option.some.inj (is.symm.trans was) ▸ resembles_asPattern shape
      have above : ∀ target ∈ shape.asPattern.2, base ≤ target := fun target mem =>
        closed node le target (children ▸ mem_children_of_mem_targets mem)
      simp only
      generalize t.reshape node shape.asPattern.1 = after at first
      generalize shape.asPattern.2 = targets at above
      -- the targets are turned one after the other, each in the table that the last one left
      induction targets generalizing after with
      | nil => exact first
      | cons target rest later =>
        rw [List.foldl_cons]
        refine later _ ?_ fun other mem => above other (List.mem_cons_of_mem _ mem)
        split
        · refine first.trans (ih target ‹_› (above target List.mem_cons_self) ?_)
          exact fun id le child mem => closed id le child (first.childrenOf id child mem)
        · exact first

end NodeTable
end LoopCapture.Syntax
