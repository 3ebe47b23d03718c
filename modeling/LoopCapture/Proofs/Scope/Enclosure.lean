import LoopCapture.Proofs.Scope.Apart
import LoopCapture.Proofs.Scope.Following
import LoopCapture.Proofs.Scope.Housing

/-!
# Uses and the scopes of the nodes around them

A use below a node that opens a scope is made from the last scope that the node opens, or from one
below it: nothing of what is entered for a node is entered before or after the node is. A `switch`
alone enters a part of it, its discriminant, before it opens its scope.
-/

namespace LoopCapture.Scope
open Syntax (Child NodeId Shape Tree)

namespace Graph

/-- The scope is that of a `switch` with the given discriminant. -/
def IsSwitchOf (g : Graph) (t : Tree) (s : ScopeId) (discriminant : NodeId) : Prop :=
  ∃ f cases, g.frame? s = some f ∧ f.kind = .switch ∧
    t.nodes.shape? f.block = some (.switch (some discriminant) cases)

/-- The scope is that of a `switch`, and the node stands in the discriminant of the `switch`. -/
def IsBeside (g : Graph) (t : Tree) (s : ScopeId) (node : NodeId) : Prop :=
  ∃ d, g.IsSwitchOf t s d ∧ t.Below node d

/-- The use is made from the scope or from one below it, or it stands in a discriminant beside the
scope and is made from around the scope or from what is opened in the discriminant. -/
def Holds (g : Graph) (t : Tree) (s : ScopeId) (use : Reference) : Prop :=
  g.IsBelow use.scope s ∨ ∃ d, g.IsSwitchOf t s d ∧ t.Below use.identifier d ∧
    (g.parentOf s = some use.scope ∨ ∃ f, g.frame? use.scope = some f ∧ t.Below f.block d)

variable {g g' : Graph} {t : Tree} {s : ScopeId} {d x : NodeId}

theorem isSwitchOf_congr (same : g'.frame? s = g.frame? s) :
    g'.IsSwitchOf t s d ↔ g.IsSwitchOf t s d := by
  rw [IsSwitchOf, IsSwitchOf, same]

theorem isBeside_congr (same : g'.frame? s = g.frame? s) :
    g'.IsBeside t s x ↔ g.IsBeside t s x :=
  exists_congr fun _ => and_congr_left' (isSwitchOf_congr same)

end Graph

theorem Record.holds_run {α : Type} (p : Record α) {t : Tree} {r : Recording} (sound : r.Sound)
    {s : ScopeId} {use : Reference} (opened : s < r.graph.scopes.size)
    (made : use.scope < r.graph.scopes.size) (h : r.graph.Holds t s use) :
    (p.run r).2.graph.Holds t s use := by
  have grows := p.grows_run r
  refine h.imp (grows.isBelow sound made) fun ⟨d, is, inside, outer⟩ => ⟨d, ?_, inside, ?_⟩
  · exact (Graph.isSwitchOf_congr (p.frame?_run opened)).mpr is
  · rwa [grows.parentOf_eq s opened, p.frame?_run made]

/-- Uses of one identifier are made from one scope, and all as types or none. -/
def Reference.AgreesWith (use use' : Reference) : Prop :=
  use.identifier = use'.identifier →
    use.scope = use'.scope ∧ use.usage.isType = use'.usage.isType

theorem Reference.AgreesWith.symm {use use' : Reference} (h : use.AgreesWith use') :
    use'.AgreesWith use :=
  fun same => (h same.symm).imp Eq.symm Eq.symm

/-- The later recording has some uses more, which stand below the one nodes, and some scopes more,
which are opened below the other ones. The uses are made from the scope that is open or from new
scopes below it, and from the right one of the new scopes. Uses of one identifier agree; one that
stands below none of the other nodes is that of a value, made from the scope that is open. -/
structure Recording.Extends (t : Tree) (r r' : Recording) (new : List Reference)
    (uses opens : List NodeId) : Prop where
  recorded : r'.graph.references.toList = r.graph.references.toList ++ new
  used : ∀ use ∈ new, ∃ x ∈ uses, t.Below use.identifier x
  opened : ∀ s f, r.graph.scopes.size ≤ s → r'.graph.frame? s = some f →
    ∃ x ∈ opens, t.Below f.block x
  made : ∀ use ∈ new, r.current = some use.scope ∨ r.graph.scopes.size ≤ use.scope
  below : ∀ use ∈ new, ∀ s, r.current = some s → r'.graph.IsBelow use.scope s
  held : ∀ use ∈ new, ∀ node s, r.graph.scopes.size ≤ s →
    r'.graph.nodeScope? (some node) = some s → t.Below use.identifier node → r'.graph.Holds t s use
  inside : ∀ use ∈ new, r.graph.scopes.size ≤ use.scope →
    ¬ r'.graph.IsBeside t use.scope use.identifier
  named : ∀ use ∈ new, (∃ x ∈ opens, t.Below use.identifier x) ∨
    r.current = some use.scope ∧ use.usage.isType = false
  agree : ∀ use ∈ new, ∀ use' ∈ new, use.AgreesWith use'

namespace Recording.Extends

variable {t : Tree} {r r' : Recording} {new new' : List Reference}
  {uses uses' opens opens' : List NodeId}

theorem scope_lt (h : r.Extends t r' new uses opens) (sound : r'.Sound) {use : Reference}
    (mem : use ∈ new) : use.scope < r'.graph.scopes.size := by
  have listed : use ∈ r'.graph.references.toList := h.recorded ▸ List.mem_append_right _ mem
  obtain ⟨id, made⟩ := Array.mem_iff_getElem?.mp (Array.mem_toList_iff.mp listed)
  exact (sound.graph.referenced id use made).1

theorem widen (h : r.Extends t r' new uses opens)
    (wider : ∀ x ∈ uses, ∃ y ∈ uses', t.Below x y)
    (wider' : ∀ x ∈ opens, ∃ y ∈ opens', t.Below x y) : r.Extends t r' new uses' opens' where
  recorded := h.recorded
  used use mem := by
    obtain ⟨x, listed, below⟩ := h.used use mem
    obtain ⟨y, listed', above⟩ := wider x listed
    exact ⟨y, listed', below.trans above⟩
  opened s f new found := by
    obtain ⟨x, listed, below⟩ := h.opened s f new found
    obtain ⟨y, listed', above⟩ := wider' x listed
    exact ⟨y, listed', below.trans above⟩
  made := h.made
  below := h.below
  held := h.held
  inside := h.inside
  named use mem := by
    refine (h.named use mem).imp_left fun ⟨x, listed, below⟩ => ?_
    obtain ⟨y, listed', above⟩ := wider' x listed
    exact ⟨y, listed', below.trans above⟩
  agree := h.agree

theorem nothing (recorded : r'.graph.references = r.graph.references)
    (frames : ∀ s, r'.graph.frame? s = r.graph.frame? s) : r.Extends t r' [] [] [] where
  recorded := by rw [recorded, List.append_nil]
  used := by simp
  opened s f new found :=
    absurd (Graph.lt_size_of_frame? ((frames s).symm.trans found)) (Nat.not_lt.mpr new)
  made := by simp
  below := by simp
  held := by simp
  inside := by simp
  named := by simp
  agree := by simp

/-- One step after another. What the first one records is held by what the second one opens, and
what the second one records is not below what the first one opened. -/
theorem andThen {α β : Type} {p : Record α} {q : Record β} (housed : r.Housed)
    (h : r.Extends t (p.run r).2 new uses opens)
    (h' : (p.run r).2.Extends t (q.run (p.run r).2).2 new' uses' opens')
    (ahead : ∀ use ∈ new, ∀ node s, (p.run r).2.graph.scopes.size ≤ s →
      (q.run (p.run r).2).2.graph.nodeScope? (some node) = some s → t.Below use.identifier node →
        (q.run (p.run r).2).2.graph.Holds t s use)
    (behind : ∀ x ∈ opens, ∀ y ∈ uses', t.Apart x y)
    (across : ∀ use ∈ new, ∀ use' ∈ new', use.AgreesWith use') :
    r.Extends t (q.run (p.run r).2).2 (new ++ new') (uses ++ uses') (opens ++ opens') := by
  have grows := p.grows_run r
  have housed' := p.housed_run housed
  have lt {use : Reference} (mem : use ∈ new) := h.scope_lt housed'.sound mem
  constructor
  · rw [h'.recorded, h.recorded, List.append_assoc]
  · intro use mem
    obtain first | second := List.mem_append.mp mem
    · exact (h.used use first).imp fun x => And.imp_left (List.mem_append_left _)
    · exact (h'.used use second).imp fun x => And.imp_left (List.mem_append_right _)
  · intro s f new found
    obtain early | late := Nat.lt_or_ge s (p.run r).2.graph.scopes.size
    · rw [q.frame?_run early] at found
      exact (h.opened s f new found).imp fun x => And.imp_left (List.mem_append_left _)
    · exact (h'.opened s f late found).imp fun x => And.imp_left (List.mem_append_right _)
  · intro use mem
    obtain first | second := List.mem_append.mp mem
    · exact h.made use first
    · exact (h'.made use second).imp (grows.current_eq.symm.trans ·) (Nat.le_trans grows.size_le)
  · intro use mem s current
    obtain first | second := List.mem_append.mp mem
    · exact (q.grows_run _).isBelow housed'.sound (lt first) (h.below use first s current)
    · exact h'.below use second s (grows.current_eq.trans current)
  · intro use mem node s new is inside
    obtain early | late := Nat.lt_or_ge s (p.run r).2.graph.scopes.size
    · have before := (q.nodeScope?_run is).resolve_right (Nat.not_le.mpr early)
      obtain first | second := List.mem_append.mp mem
      · exact q.holds_run housed'.sound early (lt first) (h.held use first node s new before inside)
      · obtain ⟨f, found, rfl⟩ := housed'.opened node s before
        obtain ⟨x, listed, below⟩ := h.opened s f new found
        obtain ⟨y, listed', below'⟩ := h'.used use second
        exact absurd below' (behind x listed y listed' _ (inside.trans below))
    · obtain first | second := List.mem_append.mp mem
      · exact ahead use first node s late is inside
      · exact h'.held use second node s late is inside
  · intro use mem new
    obtain first | second := List.mem_append.mp mem
    · rw [Graph.isBeside_congr (q.frame?_run (lt first))]
      exact h.inside use first new
    · obtain current | late := h'.made use second
      · have old := housed.sound.current _ (grows.current_eq.symm.trans current)
        exact absurd old (Nat.not_lt.mpr new)
      · exact h'.inside use second late
  · intro use mem
    obtain first | second := List.mem_append.mp mem
    · exact (h.named use first).imp_left (Exists.imp fun x => And.imp_left (List.mem_append_left _))
    · exact (h'.named use second).imp
        (Exists.imp fun x => And.imp_left (List.mem_append_right _))
        (And.imp_left (grows.current_eq.symm.trans ·))
  · intro use mem use' mem'
    obtain first | second := List.mem_append.mp mem <;>
      obtain first' | second' := List.mem_append.mp mem'
    · exact h.agree use first use' first'
    · exact across use first use' second'
    · exact (across use' first' use second).symm
    · exact h'.agree use second use' second'

/-- What a step adds inside a new scope, it adds below the node that opens the scope. -/
theorem inScope {kind : ScopeKind} {node : NodeId} {step : ScopeId → Record Unit}
    {nodes : List NodeId} (h : (r.enter kind node).Extends t
      ((step r.graph.scopes.size).run (r.enter kind node)).2 new nodes nodes)
    (inner : ∀ x ∈ nodes, t.Below x node)
    (aside : kind = .switch → ∀ d cases, t.nodes.shape? node = some (.switch (some d) cases) →
      ∀ x ∈ nodes, t.Apart x d) :
    r.Extends t ((Record.inScope kind node step).run r).2 new nodes [node] := by
  have size : (r.enter kind node).graph.scopes.size = r.graph.scopes.size + 1 := by
    simp [Recording.enter]
  have frame : ((step r.graph.scopes.size).run (r.enter kind node)).2.graph.frame?
      r.graph.scopes.size = some ⟨kind, node, r.current, r.graph.ownerFor kind r.current⟩ :=
    Record.frame?_run_inScope kind node step r
  have cases {s : ScopeId} (new : r.graph.scopes.size ≤ s) :
      s = r.graph.scopes.size ∨ (r.enter kind node).graph.scopes.size ≤ s := by
    rw [size]
    exact (Nat.eq_or_lt_of_le new).imp_left Eq.symm
  constructor
  · exact h.recorded
  · exact h.used
  · intro s f new found
    refine ⟨node, List.mem_cons_self, ?_⟩
    obtain rfl | late := cases new
    · obtain rfl := Option.some.inj (frame.symm.trans found)
      exact .refl _
    · obtain ⟨x, listed, below⟩ := h.opened s f late found
      exact below.trans (inner x listed)
  · intro use mem
    refine .inr ?_
    obtain current | late := h.made use mem
    · exact Nat.le_of_eq (Option.some.inj current)
    · rw [size] at late
      exact Nat.le_of_succ_le late
  · intro use mem s current
    refine (h.below use mem r.graph.scopes.size rfl).trans ⟨1, ?_⟩
    simp [Graph.ancestor?, Graph.parentOf_eq_bind_frame?, frame, current]
  · intro use mem x s new is below
    obtain rfl | late := cases new
    · exact .inl (h.below use mem r.graph.scopes.size rfl)
    · exact h.held use mem x s late is below
  · intro use mem new
    obtain same | late := cases new
    · rintro ⟨d, ⟨f, cases, found, isSwitch, is⟩, below⟩
      obtain rfl := Option.some.inj (frame.symm.trans (same ▸ found))
      obtain ⟨x, listed, inside⟩ := h.used use mem
      exact aside isSwitch d cases is x listed _ inside below
    · exact h.inside use mem late
  · intro use mem
    obtain ⟨x, listed, below⟩ := h.used use mem
    exact .inl ⟨node, List.mem_cons_self, below.trans (inner x listed)⟩
  · exact h.agree

end Recording.Extends

/-- From whatever recording a step is run, it adds uses below the one nodes and scopes that are
opened below the other ones. -/
def Record.Adds {α : Type} (t : Tree) (p : Record α) (uses opens : List NodeId) : Prop :=
  ∀ r : Recording, r.Housed → ∃ new, r.Extends t (p.run r).2 new uses opens

namespace Record.Adds

variable {t : Tree} {α β : Type} {p : Record α} {uses uses' opens opens' : List NodeId}
  {node : NodeId}

theorem widen (h : p.Adds t uses opens) (wider : ∀ x ∈ uses, ∃ y ∈ uses', t.Below x y)
    (wider' : ∀ x ∈ opens, ∃ y ∈ opens', t.Below x y) : p.Adds t uses' opens' :=
  fun r housed => (h r housed).imp fun _ adds => adds.widen wider wider'

/-- More nodes may be named than there is something added for. -/
theorem subset (h : p.Adds t uses opens) (more : uses ⊆ uses') (more' : opens ⊆ opens') :
    p.Adds t uses' opens' :=
  h.widen (fun x mem => ⟨x, more mem, .refl x⟩) fun x mem => ⟨x, more' mem, .refl x⟩

theorem bind {next : α → Record β} (h : p.Adds t uses opens)
    (rest : ∀ a, (next a).Adds t uses' opens') (ahead : ∀ x ∈ uses, ∀ y ∈ opens', t.Apart x y)
    (behind : ∀ x ∈ opens, ∀ y ∈ uses', t.Apart x y) :
    (p >>= next).Adds t (uses ++ uses') (opens ++ opens') := by
  intro r housed
  have housed' := p.housed_run housed
  obtain ⟨new, first⟩ := h r housed
  obtain ⟨new', second⟩ := rest (p.run r).1 (p.run r).2 housed'
  refine ⟨new ++ new', first.andThen (q := next (p.run r).1) housed second
    (fun use mem x s late is inside => ?_) behind fun use mem use' mem' same => ?_⟩
  · -- what the second step opens is not around what the first one records
    obtain ⟨f, found, rfl⟩ := ((next (p.run r).1).housed_run housed').opened x s is
    obtain ⟨y, listed, below⟩ := second.opened s f late found
    obtain ⟨z, listed', below'⟩ := first.used use mem
    exact absurd (inside.trans below) (ahead z listed' y listed _ below')
  · -- an identifier that both steps use is below nothing that one of them opens
    obtain ⟨x, listed, below⟩ := first.used use mem
    obtain ⟨y, listed', below'⟩ := second.used use' mem'
    obtain ⟨z, opened, inside⟩ | ⟨current, isValue⟩ := first.named use mem
    · exact absurd (same ▸ below') (behind z opened y listed' _ inside)
    obtain ⟨z, opened, inside⟩ | ⟨current', isValue'⟩ := second.named use' mem'
    · exact absurd (same ▸ inside) (ahead x listed z opened _ below)
    · rw [(p.grows_run r).current_eq, current] at current'
      exact ⟨Option.some.inj current', isValue.trans isValue'.symm⟩

theorem quiet (recorded : ∀ r : Recording, (p.run r).2.graph.references = r.graph.references)
    (frames : ∀ (r : Recording) s, (p.run r).2.graph.frame? s = r.graph.frame? s) :
    p.Adds t [] [] :=
  fun r _ => ⟨[], .nothing (recorded r) (frames r)⟩

theorem pure (a : α) : (Pure.pure a : Record α).Adds t [] [] :=
  quiet (fun _ => rfl) fun _ _ => rfl

theorem define (s : ScopeId) (name : String) (definition : Definition) (owningLoop : Child) :
    (Record.define s name definition owningLoop).Adds t [] [] := by
  refine quiet (fun r => ?_) fun r => r.frame?_define s name definition owningLoop
  simp only [run, Recording.define, Graph.nameNode]
  split <;> exact r.graph.references_addDefinition ..

theorem refer (node : NodeId) (usage : Usage) (sort : node ∈ opens ∨ usage.isType = false) :
    (refer t node usage).Adds t [node] opens := by
  unfold Scope.refer
  split
  swap
  · exact (pure ()).subset (List.nil_subset _) (List.nil_subset _)
  rename_i name _
  intro r housed
  cases current : r.current with
  | none =>
    have same : (run (.use node name (t.startOf node) usage) r).2 = r := by
      simp [run, Recording.use, current]
    refine ⟨[], ?_⟩
    rw [same]
    exact (Recording.Extends.nothing rfl fun _ => rfl).widen (by simp) (by simp)
  | some scope =>
    have old := housed.sound.current scope current
    have recorded : (run (.use node name (t.startOf node) usage) r).2.graph.references.toList =
        r.graph.references.toList ++
          [{ identifier := node, name, scope, start := t.startOf node, usage }] := by
      simp [run, Recording.use, current, Graph.addReference]
    refine ⟨_, recorded, ?_, fun s f new found => ?_, ?_, ?_, fun use _ x s new is =>
      ?_, ?_, ?_, ?_⟩
    · simpa using Tree.Below.refl node
    · rw [run, Recording.frame?_use] at found
      exact absurd (Graph.lt_size_of_frame? found) (Nat.not_lt.mpr new)
    · simp [current]
    · simpa [current] using ⟨0, rfl⟩
    · simp only [run, Graph.nodeScope?, Recording.nodeScopes_use] at is
      obtain ⟨f, found, -⟩ := housed.opened x s is
      exact absurd (Graph.lt_size_of_frame? found) (Nat.not_lt.mpr new)
    · simp [Nat.not_le.mpr old]
    · simpa [current] using sort.imp_left fun mem => ⟨node, mem, .refl node⟩
    · simp [Reference.AgreesWith]

theorem refers {p : Record Unit} (h : p.Refers t node) : p.Adds t [node] [] := by
  induction h with
  | nothing => exact (pure ()).subset (List.nil_subset _) (List.nil_subset _)
  | refer usage isValue => exact refer node usage (.inr isValue)
  | seq _ _ ih ih' => exact (ih.bind (fun _ => ih') (by simp) (by simp)).subset (by simp) (by simp)

theorem inScope {kind : ScopeKind} {step : ScopeId → Record Unit} {nodes : List NodeId}
    (h : ∀ s, (step s).Adds t nodes nodes) (inner : ∀ x ∈ nodes, t.Below x node)
    (plain : kind ≠ .switch) : (Record.inScope kind node step).Adds t nodes [node] :=
  fun _ housed => (h _ _ (housed.enter kind node)).imp fun _ adds =>
    adds.inScope inner fun is => absurd is plain

/-- A step for nodes that are apart from all that was entered before. -/
theorem thenApart {q : Record β} {nodes : List NodeId} (h : p.Adds t uses opens)
    (among : opens ⊆ uses) (rest : q.Adds t nodes nodes)
    (apart : (uses ++ nodes).Pairwise t.Apart) :
    (p >>= fun _ => q).Adds t (uses ++ nodes) (opens ++ nodes) := by
  obtain ⟨-, -, across⟩ := List.pairwise_append.mp apart
  exact h.bind (fun _ => rest) across fun x mem => across x (among mem)

/-- What is added below some nodes is added below a node that is around them. -/
theorem enclose {inner inner' nodes nodes' : List NodeId}
    (h : p.Adds t (inner ++ nodes) (inner' ++ nodes')) (below : ∀ x ∈ inner, t.Below x node)
    (among : inner' ⊆ inner) :
    p.Adds t (node :: nodes) (node :: nodes') := by
  refine h.widen (fun x mem => ?_) fun x mem => ?_
  · obtain inside | later := List.mem_append.mp mem
    · exact ⟨node, List.mem_cons_self, below x inside⟩
    · exact ⟨x, List.mem_cons_of_mem _ later, .refl x⟩
  · obtain inside | later := List.mem_append.mp mem
    · exact ⟨node, List.mem_cons_self, below x (among inside)⟩
    · exact ⟨x, List.mem_cons_of_mem _ later, .refl x⟩

/-- Nodes in which nothing was opened may be named once more. -/
theorem again {p q rest : Record Unit} {targets others nodes : List NodeId}
    (h : p.Adds t (targets ++ others) others) (named : q.Adds t targets [])
    (later : nodes.Pairwise t.Apart → rest.Adds t nodes nodes)
    (apart : (targets ++ others ++ nodes).Pairwise t.Apart) :
    (do p; q; rest : Record Unit).Adds t (targets ++ others ++ nodes) (others ++ nodes) := by
  obtain ⟨front, back, across⟩ := List.pairwise_append.mp apart
  obtain ⟨named', -, aside⟩ := List.pairwise_append.mp front
  have after := named.thenApart (List.nil_subset _) (later back) <|
    List.pairwise_append.mpr ⟨named', back, fun x mem => across x (List.mem_append_left _ mem)⟩
  refine (h.bind (fun _ => after) across fun x mem y mem' => ?_).subset ?_ (List.Subset.refl _)
  · obtain isTarget | isLater := List.mem_append.mp mem'
    · exact (aside y isTarget x mem).symm
    · exact across x (List.mem_append_right _ mem) y isLater
  · intro x mem
    simp only [List.mem_append] at mem ⊢
    tauto

theorem targets {step : PatternTarget → Record Unit}
    (h : ∀ target, (step target).Adds t [target.identifier] []) (l : List PatternTarget) :
    (l.forM step).Adds t (l.map (·.identifier)) [] := by
  induction l with
  | nil => exact pure ()
  | cons target rest ih => exact (h target).bind (fun _ => ih) (by simp) (by simp)

end Record.Adds

/-- What a pattern is taken apart into beside its targets. -/
def PatternParts.beside (parts : PatternParts) : List NodeId :=
  parts.types.toList ++ parts.evaluated.toList

theorem PatternParts.row_eq (parts : PatternParts) :
    parts.row = parts.targets.toList.map (·.identifier) ++ parts.beside := by
  simp [row, beside]

/-- Where the nodes are apart, a step that enters them adds uses and scopes below them. -/
def Record.Separates (t : Tree) {α : Type} (p : Record α) (nodes : List NodeId) : Prop :=
  nodes.Pairwise t.Apart → p.Adds t nodes nodes

section Walk

variable {t : Tree} {held : List NodeId} (owned : t.nodes.Owned held)

include owned

/-- What is entered in place of a node are nodes that are apart. -/
theorem Unfolds.apart {node : NodeId} {nodes : List NodeId} (h : Unfolds t node nodes) :
    nodes.Pairwise t.Apart := by
  cases h with
  | part inside => exact List.pairwise_singleton _ _
  | slots fewer =>
    exact (Tree.pairwise_apart_walked owned node).sublist
      (fewer.trans (t.row_sublist_walked node))
  | cast is =>
    have apart := Tree.pairwise_apart_walked owned node
    simpa [Tree.walked, is, Shape.walked, Shape.children, Shape.slots,
      List.filterMap_eq_flatMap_toList] using apart
  | pattern => exact PatternParts.pairwise_apart_row owned _

theorem follows_separates : Follows t fun _ p nodes => p.Separates t nodes where
  mono h fewer := fun apart =>
    (h (apart.sublist fewer)).subset fewer.subset fewer.subset
  pure a := fun _ => .pure a
  bind h rest := fun apart => by
    obtain ⟨first, second, across⟩ := List.pairwise_append.mp apart
    exact (h first).bind (fun a => rest a second) across across
  observe look := fun _ => .quiet (fun _ => rfl) fun _ _ => rfl
  define s name definition owningLoop := fun _ => .define s name definition owningLoop
  permit b writable := fun _ => .quiet (fun _ => rfl) fun _ _ => rfl
  refers h _ := fun _ => (Record.Adds.refers h).subset (List.Subset.refl _) (List.nil_subset _)
  typeName _ := fun _ => .refer _ .inType (.inl List.mem_cons_self)
  fold h unfolds := fun _ => by
    have below := unfolds.below
    exact (h (unfolds.apart owned)).widen (by simpa using below) (by simpa using below)
  inScope h unfolds plain := fun _ => by
    have below := unfolds.below
    exact (Record.Adds.inScope (fun s => h s (unfolds.apart owned)) below plain).widen
      (by simpa using below) (by simpa using Tree.Below.refl _)

/-- What a `switch` records in its discriminant stands beside the scope that it opens then. -/
theorem separates_walkSwitch {walk : Walker}
    (enters : ∀ position x, (walk position x).Separates t [x]) {node : NodeId}
    {discriminant : Child}
    {cases : List NodeId} (is : t.nodes.shape? node = some (.switch discriminant cases)) :
    (walkSwitch t walk node discriminant cases).Separates t [node] := by
  intro _
  have rules := follows_separates owned
  have unfolds := Unfolds.switch is
  have below := unfolds.below
  obtain ⟨first, second, across⟩ := List.pairwise_append.mp (unfolds.apart owned)
  intro r housed
  have housed' := (value walk discriminant).housed_run housed
  obtain ⟨new, before⟩ := rules.value enters discriminant first r housed
  have inner := rules.switchInside enters cases second
  obtain ⟨new', inside⟩ := inner _ (housed'.enter .switch node)
  have after : Recording.Extends t _ ((Record.inScope .switch node fun _ =>
      switchInside t walk cases).run ((value walk discriminant).run r).2).2 new' cases [node] :=
    Recording.Extends.inScope inside (fun x mem => below x (List.mem_append_right _ mem))
      fun _ d cases' is' x mem y here there => by
        obtain ⟨rfl, rfl⟩ : discriminant = some d ∧ cases = cases' := by simpa [is] using is'
        exact across d (by simp) x mem y there here
  refine ⟨new ++ new', (before.andThen housed after (fun use mem x s late found stands => ?_)
    (fun x mem y mem' => across x mem y mem') fun use mem use' mem' same => ?_).widen
      (by simpa using below) ?_⟩
  · obtain ⟨d, listed, inDiscriminant⟩ := before.used use mem
    obtain rfl : discriminant = some d := by simpa using listed
    have grows := (value walk (some d)).grows_run r
    obtain rfl | later := Nat.eq_or_lt_of_le late
    · have frame := Record.frame?_run_inScope .switch node (fun _ => switchInside t walk cases)
        ((value walk (some d)).run r).2
      refine .inr ⟨d, ⟨_, cases, frame, rfl, is⟩, inDiscriminant, ?_⟩
      obtain current | opened := before.made use mem
      · left
        rw [Graph.parentOf_eq_bind_frame?, frame]
        exact grows.current_eq.trans current
      · right
        have lt := before.scope_lt housed'.sound mem
        obtain ⟨f, known⟩ := Graph.exists_frame? lt
        obtain ⟨x, isPart, within⟩ := before.opened use.scope f opened known
        obtain rfl := List.mem_singleton.mp isPart
        exact ⟨f, ((Record.inScope .switch node _).frame?_run lt).trans known, within⟩
    · -- a scope in one of the cases is not around the discriminant
      obtain ⟨f, known, rfl⟩ := (Record.housed_run _ housed').opened x s found
      have inner : ((value walk (some d)).run r).2.graph.scopes.size + 1 ≤ s := later
      obtain ⟨y, isCase, within⟩ :=
        inside.opened s f (by simpa only [Recording.enter, Graph.size_addScope] using inner) known
      exact absurd (stands.trans within) (across d (by simp) y isCase _ inDiscriminant)
  · obtain ⟨x, listed, inDiscriminant⟩ := before.used use mem
    obtain ⟨y, isCase, within⟩ := inside.used use' mem'
    exact absurd (same ▸ within) (across x listed y isCase _ inDiscriminant)
  · rintro x mem
    obtain inDiscriminant | same := List.mem_append.mp mem
    · exact ⟨node, List.mem_cons_self, below x (List.mem_append_left _ inDiscriminant)⟩
    · exact ⟨node, List.mem_cons_self, List.mem_singleton.mp same ▸ .refl _⟩

/-- A pattern gives way to its parts. -/
theorem pairwise_apart_openPattern {pattern : Child} {rest : List NodeId}
    (h : (pattern.toList ++ rest).Pairwise t.Apart) :
    ((PatternParts.ofNode t pattern).row ++ rest).Pairwise t.Apart := by
  cases pattern with
  | none => simpa [PatternParts.ofNode, PatternParts.row] using h
  | some node =>
    have unfolds : Unfolds t node _ := .pattern
    exact Tree.pairwise_apart_open_head h (unfolds.apart owned) unfolds.below

omit owned in
theorem below_of_mem_row {pattern : Child} {x : NodeId}
    (mem : x ∈ (PatternParts.ofNode t pattern).row) :
    ∃ node, pattern = some node ∧ t.Below x node := by
  cases pattern with
  | none => simp [PatternParts.ofNode, PatternParts.row] at mem
  | some node =>
    have unfolds : Unfolds t node _ := .pattern
    exact ⟨node, rfl, unfolds.below x mem⟩

section Declaration

variable {declaration first : NodeId} {others nodes : List NodeId} {word : Syntax.DeclarationWord}
  {target annotated init : Child}
  (is : t.nodes.shape? declaration = some (.variableDeclaration word (first :: others)))
  (found : t.nodes.shape? first = some (.variableDeclarator target annotated init))

include is found

/-- A declaration gives way to its declarators, the first of them to its parts. -/
theorem pairwise_apart_openDeclaration (apart : (declaration :: nodes).Pairwise t.Apart) :
    ((PatternParts.ofNode t target).row ++ (annotated.toList ++ init.toList ++ others) ++
      nodes).Pairwise t.Apart := by
  have unfolds := Unfolds.declarators is
  have unfolds' := Unfolds.declarator found
  have declarators := Tree.pairwise_apart_open_head apart (unfolds.apart owned) unfolds.below
  have parts := Tree.pairwise_apart_open_head declarators (unfolds'.apart owned) unfolds'.below
  rw [List.append_assoc] at parts
  simpa using pairwise_apart_openPattern owned parts

omit owned in
theorem below_of_mem_openDeclaration {x : NodeId}
    (mem : x ∈ (PatternParts.ofNode t target).row ++
      (annotated.toList ++ init.toList ++ others)) : t.Below x declaration := by
  have unfolds := Unfolds.declarators is
  have unfolds' := Unfolds.declarator found
  have ofFirst : t.Below first declaration := unfolds.below first List.mem_cons_self
  simp only [List.mem_append, Option.mem_toList] at mem
  obtain isPart | (isType | isValue) | isOther := mem
  · obtain ⟨pattern, rfl, within⟩ := below_of_mem_row isPart
    exact (within.trans (unfolds'.below pattern (by simp))).trans ofFirst
  · exact (unfolds'.below x (by simp [isType])).trans ofFirst
  · exact (unfolds'.below x (by simp [isValue])).trans ofFirst
  · exact unfolds.below x (List.mem_cons_of_mem _ isOther)

end Declaration

variable {walk : Walker} (enters : ∀ position x, (walk position x).Separates t [x])

include enters

/-- A declaration opens nothing in the targets of its pattern. -/
theorem adds_declarePattern (pattern : Child) (s : Option ScopeId) (kind : DeclarationKind)
    (declaration : NodeId) (owningLoop : Child) (isInitialized : Bool) :
    (declarePattern t walk pattern s kind declaration owningLoop isInitialized).Adds t
      (PatternParts.ofNode t pattern).row (PatternParts.ofNode t pattern).beside := by
  have rules := follows_separates owned
  have apart := PatternParts.pairwise_apart_row owned pattern
  rw [PatternParts.row_eq] at apart ⊢
  have named (target : PatternTarget) : (do
      declare t s target.identifier kind declaration owningLoop
      referTimes t target.identifier .initializing
        (target.defaults + if isInitialized then 1 else 0) : Record Unit).Adds t
        [target.identifier] [] :=
    (rules.declare .nil).bind (fun _ => .refers (.referTimes _ _ rfl)) (by simp) (by simp)
  exact (Record.Adds.targets named _).thenApart (List.nil_subset _)
    (rules.patternRest enters _ (List.pairwise_append.mp apart).2.1) apart

theorem adds_variableDeclaration {first : NodeId} {rest : List NodeId}
    {target annotated init : Child}
    (apart : ((PatternParts.ofNode t target).row ++
      (annotated.toList ++ init.toList ++ rest)).Pairwise t.Apart)
    (is : t.nodes.shape? first = some (.variableDeclarator target annotated init))
    (declaration : NodeId) (word : Syntax.DeclarationWord) :
    (variableDeclaration t walk declaration word (first :: rest)).Adds t
      ((PatternParts.ofNode t target).row ++ (annotated.toList ++ init.toList ++ rest))
      ((PatternParts.ofNode t target).beside ++ (annotated.toList ++ init.toList ++ rest)) := by
  have rules := follows_separates owned
  rw [← List.append_assoc] at apart
  obtain ⟨front, last, -⟩ := List.pairwise_append.mp apart
  have among : (PatternParts.ofNode t target).beside ⊆ (PatternParts.ofNode t target).row := by
    simp [PatternParts.row_eq]
  have typed := rules.seq (rules.type enters annotated) (rules.value enters init)
    (List.pairwise_append.mp front).2.1
  have steps (s : Option ScopeId) := ((adds_declarePattern owned enters target s (wordKind word)
    declaration (owningLoop? t declaration) init.isSome).thenApart among typed front).thenApart
      (by simp [among]) (rules.forM (fun x _ =>
        rules.declareOne enters s (wordKind word) declaration
        (owningLoop? t declaration) x) last) apart
  simp only [List.append_assoc] at steps ⊢
  have inner (s : Option ScopeId) : ((first :: rest).forM
      (declareOne t walk s (wordKind word) declaration (owningLoop? t declaration))).Adds t
        ((PatternParts.ofNode t target).row ++ (annotated.toList ++ (init.toList ++ rest)))
        ((PatternParts.ofNode t target).beside ++ (annotated.toList ++ (init.toList ++ rest))) := by
    rw [List.forM_eq_forM, List.forM_cons, declareOne, is]
    exact steps s
  have look {α : Type} (f : Recording → α) : (Record.observe f).Adds t [] [] :=
    .quiet (fun _ => rfl) fun _ _ => rfl
  exact (look _).bind (fun _ => (look _).bind (fun _ => inner _) (by simp) (by simp)) (by simp)
    (by simp)

/-- A loop that assigns what its head declares names the variables of the head once more. That opens
nothing, and nothing was opened around the variables. -/
theorem separates_headDeclaration {declaration : NodeId} {word : Syntax.DeclarationWord}
    {declarators nodes : List NodeId}
    (is : t.nodes.shape? declaration = some (.variableDeclaration word declarators))
    {rest : Record Unit} (later : rest.Separates t nodes) : (do
      variableDeclaration t walk declaration word declarators
      assignHead t declarators
      rest : Record Unit).Separates t (declaration :: nodes) := by
  have rules := follows_separates owned
  intro apart
  have unnamed (none : assignHead t declarators = pure ()) : (do
      variableDeclaration t walk declaration word declarators
      assignHead t declarators
      rest : Record Unit).Adds t (declaration :: nodes) (declaration :: nodes) := by
    rw [none]
    have declared := rules.fold (rules.variableDeclaration enters declaration word declarators)
      (.declarators is)
    exact rules.seq declared (rules.skip (rules.pure ()) fun _ => later) apart
  cases declarators with
  | nil => exact unnamed rfl
  | cons first others =>
    by_cases has : ∃ target annotated init,
        t.nodes.shape? first = some (.variableDeclarator target annotated init)
    swap
    · refine unnamed ?_
      simp only [assignHead, List.head?_cons, Option.bind_some]
      split
      · rename_i target annotated init found
        exact absurd ⟨target, annotated, init, found⟩ has
      · rfl
    obtain ⟨target, annotated, init, found⟩ := has
    have opened := pairwise_apart_openDeclaration owned is found apart
    have declared := adds_variableDeclaration owned enters (List.pairwise_append.mp opened).1 found
      declaration word
    have named : (assignHead t (first :: others)).Adds t
        ((PatternParts.ofNode t target).targets.toList.map (·.identifier)) [] := by
      simp only [assignHead, List.head?_cons, Option.bind_some, found]
      exact .targets (fun target => .refer _ _ (.inr rfl)) _
    have inside (x : NodeId) := below_of_mem_openDeclaration is found (x := x)
    rw [PatternParts.row_eq, List.append_assoc] at declared inside
    refine (declared.again named later ?_).enclose inside (List.subset_append_right _ _)
    simpa [PatternParts.row_eq] using opened

theorem separates_walkForEach {node : NodeId} {left right body : Child}
    (row : t.row node = left.toList ++ right.toList ++ body.toList) :
    (walkForEach t walk node left right body).Separates t [node] := by
  have rules := follows_separates owned
  refine rules.inHeadScope ?_ (.slots (.refl (t.row node)))
  rw [row, List.append_assoc]
  have rest := rules.seq (rules.value enters right) (rules.value enters body)
  simp only
  split
  · rename_i declaration word declarators is
    exact separates_headDeclaration owned enters is rest
  · exact rules.seq (rules.assignPattern enters _ .writing) rest

omit enters in
theorem accompanies_separates : Accompanies t fun _ p nodes => p.Separates t nodes where
  toFollows := follows_separates owned
  switch enters := separates_walkSwitch owned enters
  forEach enters := fun row _ => separates_walkForEach owned enters row

omit enters in
/-- What the walk of a tree adds to a graph without scopes. -/
theorem extends_walkTree (environment : Environment) : ∃ new,
    Recording.Extends t { graph := .empty t }
      ((walkTree t environment).run { graph := .empty t }).2 new [t.root] [t.root] :=
  (accompanies_separates owned).walkTree environment (List.pairwise_singleton _ _) _
    (Recording.housed_empty t)

end Walk

end LoopCapture.Scope
