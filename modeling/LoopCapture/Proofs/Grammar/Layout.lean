import LoopCapture.Proofs.Syntax.Reshaping
import LoopCapture.Proofs.Token.Standing

/-!
# Where the nodes of a parse stand

While a text is parsed, its nodes stand before the current token and children inside their parents.
A node without extent stands for something that is missing, and then there is an error. Each step
keeps this, and leaves alone the nodes that were there before a chosen moment.
-/

namespace LoopCapture.Grammar
open Text (Offset byteSize)
open Token (Scanner)
open Diagnostic (SyntaxError)
open Syntax (Node NodeId NodeTable Shape)

/-- What of a state the places of its nodes depend on. -/
structure Layout where
  scanner : Scanner
  nodes : NodeTable
  errors : Array SyntaxError
  lastEnd : Offset
  size : Nat

def State.layout (s : State) : Layout := ⟨s.scanner, s.nodes, s.errors, s.lastEnd, s.size⟩

namespace Layout

def here (l : Layout) : Offset := l.scanner.start.offset

def IsFaulty (l : Layout) : Prop := l.errors ≠ #[] ∨ l.scanner.errors ≠ #[]

/-- A token after the place was consumed, unless some error was met. -/
def HasPassed (l : Layout) (b : Offset) : Prop := b < l.lastEnd ∨ l.IsFaulty

def Places (l : Layout) (base : Nat) (b : Offset) (id : NodeId) : Prop :=
  base ≤ id ∧ ∃ n : Node, l.nodes[id]? = some n ∧ b ≤ n.start

/-- All of the nodes were made after the first `base` ones and start at the place or later. -/
def PlacesAll (l : Layout) (base : Nat) (b : Offset) (nodes : List NodeId) : Prop :=
  ∀ id ∈ nodes, l.Places base b id

/-- All nodes stand before the current token, and children inside their parents, one after the other
where they are in a row. Names take up room, and a loop starts before its parts. Nodes made after
the first `base` ones have no children among these. -/
structure Sound (text : List Char) (base : Nat) (l : Layout) : Prop where
  size_eq : l.size = byteSize text
  stands : l.scanner.StandsIn text
  lastEnd_le : l.lastEnd ≤ l.here
  precedes : ∀ n ∈ l.nodes, n.Precedes l.here l.lastEnd
  nests : ∀ n ∈ l.nodes, ∀ child ∈ n.shape.children,
    ∃ c : Node, l.nodes[child]? = some c ∧ n.Nests c
  proper : l.IsFaulty ∨ ∀ n ∈ l.nodes, n.start < n.stop
  named : ∀ n ∈ l.nodes, n.shape.nameText?.isSome = true → n.start < n.stop
  rows : ∀ n ∈ l.nodes, l.nodes.InRow n.shape.row
  loops : ∀ n ∈ l.nodes, l.nodes.OpensLoop n
  base_le : base ≤ l.nodes.size
  closed : ∀ id ≥ base, ∀ child ∈ l.nodes.childrenOf id, base ≤ child

/-- The later layout is further in the same text. Errors were added, nodes stand where they stood,
and the first `base` ones are as they were. -/
structure Leads (base : Nat) (l l' : Layout) : Prop where
  size_eq : l'.size = l.size
  here_le : l.here ≤ l'.here
  lastEnd_le : l.lastEnd ≤ l'.lastEnd
  errors : ∃ more, l'.errors = l.errors ++ more
  tokenErrors : ∃ more, l'.scanner.errors = l.scanner.errors ++ more
  spans : ∀ (id : NodeId) (n : Node), l.nodes[id]? = some n →
    ∃ n' : Node, l'.nodes[id]? = some n' ∧ n'.span = n.span
  older : ∀ id < base, l'.nodes[id]? = l.nodes[id]?

variable {text : List Char} {base : Nat} {b : Offset} {id : NodeId} {l l' l'' : Layout}

theorem Leads.refl (base : Nat) (l : Layout) : Leads base l l where
  size_eq := rfl
  here_le := Nat.le_refl _
  lastEnd_le := Nat.le_refl _
  errors := ⟨#[], by simp⟩
  tokenErrors := ⟨#[], by simp⟩
  spans _ n found := ⟨n, found, rfl⟩
  older _ _ := rfl

theorem Leads.trans (h : Leads base l l') (h' : Leads base l' l'') : Leads base l l'' where
  size_eq := h'.size_eq.trans h.size_eq
  here_le := Nat.le_trans h.here_le h'.here_le
  lastEnd_le := Nat.le_trans h.lastEnd_le h'.lastEnd_le
  errors := by
    obtain ⟨more, first⟩ := h.errors
    obtain ⟨others, second⟩ := h'.errors
    exact ⟨more ++ others, by rw [second, first, Array.append_assoc]⟩
  tokenErrors := by
    obtain ⟨more, first⟩ := h.tokenErrors
    obtain ⟨others, second⟩ := h'.tokenErrors
    exact ⟨more ++ others, by rw [second, first, Array.append_assoc]⟩
  spans id n found := by
    obtain ⟨m, found', same⟩ := h.spans id n found
    obtain ⟨o, found'', same'⟩ := h'.spans id m found'
    exact ⟨o, found'', same'.trans same⟩
  older id lt := (h'.older id lt).trans (h.older id lt)

theorem Leads.lower {fewer : Nat} (h : Leads base l l') (le : fewer ≤ base) : Leads fewer l l' :=
  { h with older := fun id lt => h.older id (Nat.lt_of_lt_of_le lt le) }

theorem IsFaulty.leads (h : l.IsFaulty) (leads : Leads base l l') : l'.IsFaulty := by
  obtain ⟨more, errors⟩ := leads.errors
  obtain ⟨others, tokenErrors⟩ := leads.tokenErrors
  rcases h with some | some
  · exact .inl (by simp [errors, some])
  · exact .inr (by simp [tokenErrors, some])

theorem HasPassed.leads (h : l.HasPassed b) (leads : Leads base l l') : l'.HasPassed b :=
  h.imp (Nat.lt_of_lt_of_le · leads.lastEnd_le) (·.leads leads)

theorem HasPassed.lower {a : Offset} (h : l.HasPassed b) (le : a ≤ b) : l.HasPassed a :=
  h.imp_left (Nat.lt_of_le_of_lt le)

theorem Places.leads (h : l.Places base b id) (leads : Leads base l l') : l'.Places base b id := by
  obtain ⟨above, n, found, le⟩ := h
  obtain ⟨n', found', same⟩ := leads.spans id n found
  have start : n'.start = n.start := congrArg Text.Span.start same
  exact ⟨above, n', found', start ▸ le⟩

theorem Places.lower {a : Offset} (h : l.Places base b id) (le : a ≤ b) : l.Places base a id :=
  ⟨h.1, h.2.imp fun _ found => ⟨found.1, Nat.le_trans le found.2⟩⟩

@[simp] theorem placesAll_nil (l : Layout) (base : Nat) (b : Offset) : l.PlacesAll base b [] :=
  fun _ none => absurd none List.not_mem_nil

@[simp] theorem placesAll_cons {nodes : List NodeId} :
    l.PlacesAll base b (id :: nodes) ↔ l.Places base b id ∧ l.PlacesAll base b nodes :=
  List.forall_mem_cons

@[simp] theorem placesAll_append {nodes nodes' : List NodeId} :
    l.PlacesAll base b (nodes ++ nodes') ↔ l.PlacesAll base b nodes ∧ l.PlacesAll base b nodes' :=
  List.forall_mem_append

theorem PlacesAll.lower {nodes : List NodeId} {a : Offset} (h : l.PlacesAll base b nodes)
    (le : a ≤ b) : l.PlacesAll base a nodes :=
  fun id mem => (h id mem).lower le

/-- What takes up room among the nodes ends at the place or before it. -/
def EndsAll (l : Layout) (b : Offset) (nodes : List NodeId) : Prop :=
  ∀ id ∈ nodes, ∃ n : Node, l.nodes[id]? = some n ∧ (n.start < n.stop → n.stop ≤ b)

theorem EndsAll.leads {nodes : List NodeId} (h : l.EndsAll b nodes) (leads : Leads base l l') :
    l'.EndsAll b nodes := by
  intro id mem
  obtain ⟨n, found, ends⟩ := h id mem
  obtain ⟨n', found', same⟩ := leads.spans id n found
  obtain ⟨start, stop⟩ := Text.Span.mk.inj same
  exact ⟨n', found', by rwa [start, stop]⟩

/-- What ends before a place ends before all that starts there or later. -/
theorem EndsAll.apart {nodes others : List NodeId} (h : l.EndsAll b nodes)
    (h' : l.PlacesAll base b others) : l.nodes.Apart nodes others := by
  intro id mem other mem'
  obtain ⟨n, found, ends⟩ := h id mem
  obtain ⟨-, m, found', le⟩ := h' other mem'
  exact ⟨n, m, found, found', fun extent => Nat.le_trans (ends extent) le⟩

/-- What was made ends before the current token. -/
theorem Sound.endsAll (h : l.Sound text base) {nodes : List NodeId}
    (places : l.PlacesAll base b nodes) : l.EndsAll l.here nodes := by
  intro id mem
  obtain ⟨-, n, found, -⟩ := places id mem
  exact ⟨n, found, fun extent =>
    Nat.le_trans ((h.precedes n (Array.mem_of_getElem? found)).stop_le extent) h.lastEnd_le⟩

theorem Leads.nests (leads : Leads base l l') {n : Node} {child : NodeId}
    (h : ∃ c : Node, l.nodes[child]? = some c ∧ n.Nests c) :
    ∃ c : Node, l'.nodes[child]? = some c ∧ n.Nests c := by
  obtain ⟨c, found, nests⟩ := h
  obtain ⟨c', found', same⟩ := leads.spans child c found
  exact ⟨c', found', nests.congr rfl same⟩

theorem Leads.endsBefore (leads : Leads base l l') {other : NodeId}
    (h : l.nodes.EndsBefore id other) : l'.nodes.EndsBefore id other := by
  obtain ⟨n, m, found, found', ends⟩ := h
  obtain ⟨n', is, same⟩ := leads.spans id n found
  obtain ⟨m', is', same'⟩ := leads.spans other m found'
  obtain ⟨start, stop⟩ := Text.Span.mk.inj same
  obtain ⟨start', -⟩ := Text.Span.mk.inj same'
  exact ⟨n', m', is, is', by rwa [start, stop, start']⟩

theorem Leads.apart (leads : Leads base l l') {nodes others : List NodeId}
    (h : l.nodes.Apart nodes others) : l'.nodes.Apart nodes others :=
  fun id mem other mem' => leads.endsBefore (h id mem other mem')

theorem Leads.inRow (leads : Leads base l l') {nodes : List NodeId} (h : l.nodes.InRow nodes) :
    l'.nodes.InRow nodes :=
  h.imp leads.endsBefore

theorem Leads.opensLoop (leads : Leads base l l') {n : Node} (h : l.nodes.OpensLoop n) :
    l'.nodes.OpensLoop n := by
  intro isLoop child mem
  obtain ⟨c, found, lt⟩ := h isLoop child mem
  obtain ⟨c', found', same⟩ := leads.spans child c found
  obtain ⟨start, -⟩ := Text.Span.mk.inj same
  exact ⟨c', found', start ▸ lt⟩

theorem Sound.hasPassed (h : l.Sound text base) (places : l.Places base b id) : l.HasPassed b := by
  obtain ⟨-, n, found, le⟩ := places
  have mem := Array.mem_of_getElem? found
  refine h.proper.elim .inr fun proper => .inl ?_
  have extent := proper n mem
  exact Nat.lt_of_le_of_lt le (Nat.lt_of_lt_of_le extent ((h.precedes n mem).stop_le extent))

theorem Sound.now (h : l.Sound text base) : l.Sound text l.nodes.size :=
  { h with
    base_le := Nat.le_refl _
    closed := fun id le child mem => by
      simp [NodeTable.childrenOf, NodeTable.shape?, Array.getElem?_eq_none le] at mem }

/-- What leaves alone the nodes of now leaves alone those of an earlier moment. -/
theorem Sound.earlier (h : l.Sound text base) (leads : Leads l.nodes.size l l')
    (h' : l'.Sound text l.nodes.size) : l'.Sound text base :=
  { h' with
    base_le := Nat.le_trans h.base_le h'.base_le
    closed := fun id le child mem => by
      by_cases lt : id < l.nodes.size
      · refine h.closed id le child ?_
        rwa [NodeTable.childrenOf, NodeTable.shape?, leads.older id lt] at mem
      · exact Nat.le_trans h.base_le (h'.closed id (Nat.not_lt.mp lt) child mem) }

def advance (l : Layout) : Layout :=
  { l with lastEnd := l.scanner.stop.offset, scanner := l.scanner.scan }

theorem Sound.leads_advance (h : l.Sound text base) : Leads base l l.advance where
  size_eq := rfl
  here_le := Nat.le_trans h.stands.stop.offset_le (Scanner.standsIn_scan h.stands.stop_before).2
  lastEnd_le := Nat.le_trans h.lastEnd_le h.stands.stop.offset_le
  errors := ⟨#[], by simp [advance]⟩
  tokenErrors := l.scanner.errors_scan
  spans _ n found := ⟨n, found, rfl⟩
  older _ _ := rfl

theorem Sound.advance (h : l.Sound text base) : l.advance.Sound text base where
  size_eq := h.size_eq
  stands := (Scanner.standsIn_scan h.stands.stop_before).1
  lastEnd_le := (Scanner.standsIn_scan h.stands.stop_before).2
  precedes n mem :=
    let before := h.precedes n mem
    ⟨before.start_le_stop, Nat.le_trans before.start_le h.leads_advance.here_le,
      fun extent => Nat.le_trans (before.stop_le extent) h.leads_advance.lastEnd_le⟩
  nests := h.nests
  proper := h.proper.imp_left (·.leads h.leads_advance)
  named := h.named
  rows := h.rows
  loops := h.loops
  base_le := h.base_le
  closed := h.closed

/-- A token that is not the end of the text is passed when it is consumed. -/
theorem Sound.hasPassed_advance (h : l.Sound text base) (le : b ≤ l.here)
    (proper : l.scanner.kind ≠ .endOfFile) : l.advance.HasPassed b :=
  .inl (Nat.lt_of_le_of_lt le (h.stands.proper proper))

/-- The current token read again. -/
def reread (l : Layout) (again : Rereading) : Layout := { l with scanner := again.apply l.scanner }

theorem leads_reread (base : Nat) (l : Layout) (again : Rereading) :
    Leads base l (l.reread again) where
  size_eq := rfl
  here_le := Nat.le_of_eq (congrArg (·.offset) (again.rereadFrom_apply l.scanner).start.symm)
  lastEnd_le := Nat.le_refl _
  errors := ⟨#[], by simp [reread]⟩
  tokenErrors := (again.rereadFrom_apply l.scanner).errors
  spans _ n found := ⟨n, found, rfl⟩
  older _ _ := rfl

theorem Sound.reread (h : l.Sound text base) (again : Rereading) :
    (l.reread again).Sound text base where
  size_eq := h.size_eq
  stands := again.standsIn_apply h.stands
  lastEnd_le := Nat.le_trans h.lastEnd_le (leads_reread base l again).here_le
  precedes n mem :=
    let before := h.precedes n mem
    ⟨before.start_le_stop, Nat.le_trans before.start_le (leads_reread base l again).here_le,
      before.stop_le⟩
  nests := h.nests
  proper := h.proper.imp_left (·.leads (leads_reread base l again))
  named := h.named
  rows := h.rows
  loops := h.loops
  base_le := h.base_le
  closed := h.closed

theorem leads_errors (base : Nat) (l : Layout) (more : Array SyntaxError) :
    Leads base l { l with errors := l.errors ++ more } :=
  { Leads.refl base l with errors := ⟨more, rfl⟩ }

theorem Sound.addErrors (h : l.Sound text base) (more : Array SyntaxError) :
    Sound text base { l with errors := l.errors ++ more } :=
  { h with proper := h.proper.imp_left (·.leads (leads_errors base l more)) }

def addNode (l : Layout) (n : Node) : Layout := { l with nodes := l.nodes.push n }

theorem leads_addNode (h : base ≤ l.nodes.size) (n : Node) : Leads base l (l.addNode n) :=
  { Leads.refl base l with
    spans := fun id n found => ⟨n, by simp [addNode, Array.getElem?_push]; grind, rfl⟩
    older := fun id lt => by simp [addNode, Array.getElem?_push]; grind }

theorem Sound.addNode (h : l.Sound text base) {n : Node} (precedes : n.Precedes l.here l.lastEnd)
    (nests : ∀ child ∈ n.shape.children, base ≤ child ∧
      ∃ c : Node, l.nodes[child]? = some c ∧ n.Nests c)
    (proper : l.IsFaulty ∨ n.start < n.stop)
    (named : n.shape.nameText?.isSome = true → n.start < n.stop)
    (row : l.nodes.InRow n.shape.row) (loop : l.nodes.OpensLoop n) :
    (l.addNode n).Sound text base where
  size_eq := h.size_eq
  stands := h.stands
  lastEnd_le := h.lastEnd_le
  precedes m mem := by
    rcases Array.mem_push.mp mem with old | rfl
    · exact h.precedes m old
    · exact precedes
  nests m mem child mem' := by
    refine (leads_addNode h.base_le n).nests ?_
    rcases Array.mem_push.mp mem with old | rfl
    · exact h.nests m old child mem'
    · exact (nests child mem').2
  proper := by
    rcases h.proper with faulty | olds
    · exact .inl faulty
    rcases proper with faulty | new
    · exact .inl faulty
    · refine .inr fun m mem => ?_
      rcases Array.mem_push.mp mem with old | rfl
      · exact olds m old
      · exact new
  named m mem := by
    rcases Array.mem_push.mp mem with old | rfl
    · exact h.named m old
    · exact named
  rows m mem := by
    refine (leads_addNode h.base_le n).inRow ?_
    rcases Array.mem_push.mp mem with old | rfl
    · exact h.rows m old
    · exact row
  loops m mem := by
    refine (leads_addNode h.base_le n).opensLoop ?_
    rcases Array.mem_push.mp mem with old | rfl
    · exact h.loops m old
    · exact loop
  base_le := by
    simp only [Layout.addNode, Array.size_push]
    exact Nat.le_succ_of_le h.base_le
  closed id le child mem := by
    rw [Layout.addNode, NodeTable.childrenOf_push] at mem
    split at mem
    · exact (nests child mem).1
    · exact h.closed id le child mem

def reshaped (l : Layout) (nodes : NodeTable) : Layout := { l with nodes }

theorem leads_reshaped {nodes : NodeTable} (reshapes : l.nodes.Reshapes base nodes) :
    Leads base l (l.reshaped nodes) :=
  { Leads.refl base l with
    spans := fun _ _ found => reshapes.find found
    older := reshapes.older }

theorem Sound.reshaped (h : l.Sound text base) {nodes : NodeTable}
    (reshapes : l.nodes.Reshapes base nodes) : (l.reshaped nodes).Sound text base where
  size_eq := h.size_eq
  stands := h.stands
  lastEnd_le := h.lastEnd_le
  precedes m mem := by
    obtain ⟨old, mem, same, -⟩ := reshapes.exists_of_mem mem
    exact (h.precedes old mem).congr same
  nests m mem child inner := by
    obtain ⟨old, mem, same, children, -⟩ := reshapes.exists_of_mem mem
    obtain ⟨c, found, nests⟩ := h.nests old mem child (children child inner)
    exact (leads_reshaped reshapes).nests ⟨c, found, nests.congr same.symm rfl⟩
  proper := h.proper.imp_right fun proper m mem => by
    obtain ⟨old, mem, same, -⟩ := reshapes.exists_of_mem mem
    obtain ⟨start, stop⟩ := Text.Span.mk.inj same
    exact start ▸ stop ▸ proper old mem
  named m mem isName := by
    obtain ⟨old, mem, same, -, resembles⟩ := reshapes.exists_of_mem mem
    obtain ⟨start, stop⟩ := Text.Span.mk.inj same
    exact start ▸ stop ▸ h.named old mem (resembles.nameText?_eq ▸ isName)
  rows m mem := by
    obtain ⟨old, mem, -, -, resembles⟩ := reshapes.exists_of_mem mem
    exact (leads_reshaped reshapes).inRow (resembles.row_eq ▸ h.rows old mem)
  loops m mem := by
    obtain ⟨old, mem, same, children, resembles⟩ := reshapes.exists_of_mem mem
    obtain ⟨start, -⟩ := Text.Span.mk.inj same
    refine (leads_reshaped reshapes).opensLoop fun isLoop child inner => ?_
    exact start ▸ h.loops old mem (resembles.isLoop_eq ▸ isLoop) child (children child inner)
  base_le := Nat.le_trans h.base_le (Nat.le_of_eq reshapes.size_eq.symm)
  closed id le child mem := h.closed id le child (reshapes.childrenOf id child mem)

end Layout
end LoopCapture.Grammar
