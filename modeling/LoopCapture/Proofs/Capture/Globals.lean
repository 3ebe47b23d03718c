import LoopCapture.Proofs.Capture.Change
import LoopCapture.Proofs.Scope.Sides

/-!
# More globals, more findings

With more globals configured, a name that meant nothing may stand for a global, and a name that the
text declares in the global scope may stand for a global first. Either way what was unsafe stays
unsafe, and the names of a finding stay in their order.
-/

namespace LoopCapture
open Syntax (Child NodeId Tree)

namespace Capture
open Scope (Definition Environment Globals Graph Reference ReferenceId ScopeId SourceType)

/-- Choosing among the items and keeping each once can be done in any order. -/
theorem eraseDups_filter {α : Type} [BEq α] [LawfulBEq α] (test : α → Bool) (items : List α) :
    (items.filter test).eraseDups = items.eraseDups.filter test := by
  match items with
  | [] => rfl
  | first :: rest =>
    have ih := eraseDups_filter test (rest.filter fun item => !item == first)
    rw [List.eraseDups_cons, List.filter_cons, List.filter_cons, ← ih, List.filter_filter]
    by_cases chosen : test first = true
    · simp only [chosen, if_true, List.eraseDups_cons, List.filter_filter]
      simp only [Bool.and_comm]
    · -- what is not chosen is left out anyway
      simp only [chosen, Bool.false_eq_true, if_false]
      congr 1
      refine List.filter_congr fun item _ => ?_
      cases passes : test item with
      | false => rfl
      | true =>
        have other : item ≠ first := fun same => chosen (same ▸ passes)
        simp [other]
termination_by items.length
decreasing_by exact Nat.lt_succ_of_le (List.length_filter_le ..)

/-- When more items are good than before, and an item that is now good was so before if another one
of its name was, then the names of the good items stay in their order. -/
theorem sublist_eraseDups_map {α β : Type} [BEq β] [LawfulBEq β] {name : α → β} {items : List α}
    {good more : α → Bool} (le : ∀ a ∈ items, good a = true → more a = true)
    (alike : ∀ a ∈ items, ∀ b ∈ items, name a = name b → more a = true → good b = true →
      good a = true) :
    ((items.filter good).map name).eraseDups.Sublist ((items.filter more).map name).eraseDups := by
  let wanted (n : β) : Bool := ((items.filter good).map name).contains n
  have chosen : (items.filter good).map name = ((items.filter more).map name).filter wanted := by
    rw [List.filter_map, List.filter_filter]
    refine congrArg (List.map name) (List.filter_congr fun a mem => ?_)
    rw [Bool.eq_iff_iff, Bool.and_eq_true]
    constructor
    · intro is
      exact ⟨List.contains_iff_mem.mpr (List.mem_map_of_mem (List.mem_filter.mpr ⟨mem, is⟩)),
        le a mem is⟩
    · rintro ⟨isWanted, isMore⟩
      obtain ⟨b, chosen, named⟩ := List.mem_map.mp (List.contains_iff_mem.mp isWanted)
      obtain ⟨mem', is⟩ := List.mem_filter.mp chosen
      exact alike a mem b mem' named.symm isMore is
  rw [chosen, eraseDups_filter]
  exact List.filter_sublist

namespace Program

variable {t : Tree} {g g' : Graph} {configured : String → Prop} (alike : g.Alike configured g')
  (walked : g.Walked t) (walked' : g'.Walked t)

include alike walked walked'

/-- The scopes of functions are passed by the same references. -/
theorem through_eq_of_alike {s : ScopeId} (inner : s ≠ 0) :
    (ofWalked t g').graph.through s = (ofWalked t g).graph.through s := by
  rw [ofWalked, ofWalked, Graph.through_resolveAll walked'.sound,
    Graph.through_resolveAll walked.sound, alike.references]
  refine List.filter_congr fun id _ => ?_
  rw [Graph.passes, Graph.passes, alike.references]
  cases made : g.references[id]? with
  | none => rfl
  | some r =>
    have inside := (walked.sound.referenced id r made).1
    simp only [Option.any_some, alike.mem_passed_iff walked.sound.parent_lt inside inner]

omit alike walked' in
/-- What passes through a scope, as it was recorded, together with what it has come to mean. -/
theorem captures_ofWalked (s : ScopeId) : (ofWalked t g).captures s =
    (((ofWalked t g).graph.through s).filterMap (g.references[·]?)).map fun r =>
      { r with resolved := g.meaning? t r } := by
  rw [captures, references, List.map_filterMap]
  exact List.filterMap_congr fun id _ => Graph.references_resolveAll walked.sound id

/-- What passes through the scope of a function has the same names. -/
theorem map_name_captures_eq_of_alike {s : ScopeId} (inner : s ≠ 0) :
    ((ofWalked t g').captures s).map (·.name) = ((ofWalked t g).captures s).map (·.name) := by
  rw [captures_ofWalked walked', captures_ofWalked walked,
    through_eq_of_alike alike walked walked' inner, alike.references, List.map_map, List.map_map]
  rfl

omit walked walked' in
theorem nodeScope?_eq_of_alike (node : NodeId) :
    (ofWalked t g').graph.nodeScope? (some node) = (ofWalked t g).graph.nodeScope? (some node) := by
  rw [ofWalked, ofWalked, Graph.nodeScope?_resolveAll, Graph.nodeScope?_resolveAll,
    Graph.nodeScope?, Graph.nodeScope?, alike.nodeScopes]

omit alike walked' in
theorem inner_of_nodeScope? {closure : NodeId} (isFunction : t.isFunction (some closure) = true)
    {s : ScopeId} (opened : (ofWalked t g).graph.nodeScope? (some closure) = some s) : s ≠ 0 :=
  walked.functions closure s isFunction
    ((g.nodeScope?_resolveAll t (some closure)).symm.trans opened)

theorem mentionsItself_eq_of_alike {closure : NodeId}
    (isFunction : t.isFunction (some closure) = true) (f : Syntax.Function) :
    (ofWalked t g').mentionsItself closure f = (ofWalked t g).mentionsItself closure f := by
  have mentions (p : Program) (s : ScopeId) (own : String) :
      (p.captures s).any (·.name == own) = ((p.captures s).map (·.name)).any (· == own) := by
    rw [List.any_map]
    rfl
  unfold mentionsItself
  rw [nodeScope?_eq_of_alike alike closure]
  cases opened : (ofWalked t g).graph.nodeScope? (some closure) with
  | none => rfl
  | some s =>
    have inner := inner_of_nodeScope? walked isFunction opened
    simp only [Option.any_some, mentions, map_name_captures_eq_of_alike alike walked walked' inner]
    rfl

theorem isExempt_eq_of_alike (closure : NodeId) :
    (ofWalked t g').isExempt closure = (ofWalked t g).isExempt closure := by
  unfold isExempt
  cases is : t.function? (some closure) with
  | none => simp only [ofWalked, is, Option.any_none]
  | some f =>
    have isFunction := Syntax.Tree.isFunction_of_function? is
    have mentions := mentionsItself_eq_of_alike alike walked walked' isFunction f
    simp only [ofWalked, is, Option.any_some] at mentions ⊢
    rw [mentions]

theorem loopAround_eq_of_alike (n : Nat) (node : NodeId) :
    (ofWalked t g').loopAround n node = (ofWalked t g).loopAround n node := by
  have exempt := isExempt_eq_of_alike alike walked walked'
  induction n generalizing node with
  | zero => rfl
  | succ n ih =>
    simp only [loopAround, exempt, ih]
    rfl

theorem topLoop_eq_of_alike (loop : NodeId) (excluded : Child) :
    (ofWalked t g').topLoop loop excluded = (ofWalked t g).topLoop loop excluded := by
  have around (node : NodeId) := loopAround_eq_of_alike alike walked walked'
    Syntax.parentWalkLimit node
  have climbs (border : Text.Offset) (n : Nat) (top : NodeId) (next : Child) :
      (ofWalked t g').climb border n top next = (ofWalked t g).climb border n top next := by
    induction n generalizing top next with
    | zero => rfl
    | succ n ih =>
      cases next with
      | none => rfl
      | some loop =>
        simp only [climb, containingLoop, around, ih]
        rfl
  exact climbs ..

section Changes

variable {loop : NodeId} {s : ScopeId} {name : String} {d : Definition}

/-- Late writes to a name are the same, unless the name may stand for a configured global. -/
theorem writesLate_iff_of_alike (free : s ≠ 0 ∨ ¬ configured name) {id : ReferenceId}
    {w : Reference} (made : g.references[id]? = some w) :
    (ofWalked t g').WritesLate g' loop s name d w ↔
      (ofWalked t g).WritesLate g loop s name d w := by
  have inside := (walked.sound.referenced id w made).1
  have home (named : w.name = name) := alike.home?_iff (t := t) walked.sound.parent_lt inside
    (s := s) (named.symm ▸ free)
  have top := topLoop_eq_of_alike alike walked walked' loop (freshPart d)
  constructor
  · rintro ⟨isHome, named, writes, late⟩
    refine ⟨(home named).mp isHome, named, writes, ?_⟩
    rwa [alike.variableScope?_eq, alike.variableScope?_eq, top] at late
  · rintro ⟨isHome, named, writes, late⟩
    refine ⟨(home named).mpr isHome, named, writes, ?_⟩
    rwa [alike.variableScope?_eq, alike.variableScope?_eq, top]

theorem changesAt_iff_of_alike (free : s ≠ 0 ∨ ¬ configured name) :
    (ofWalked t g').ChangesAt g' loop s name d ↔ (ofWalked t g).ChangesAt g loop s name d := by
  have late {id : ReferenceId} {w : Reference} (made : g.references[id]? = some w) :
      (ofWalked t g').WritesLate g' loop s name d w ↔
        (ofWalked t g).WritesLate g loop s name d w :=
    writesLate_iff_of_alike alike walked walked' free made
  constructor
  · rintro ⟨first, notConst, notFresh, id, w, made, isLate⟩
    rw [alike.definitions s name free] at first
    rw [alike.references] at made
    exact ⟨first, notConst, notFresh, id, w, made, (late made).mp isLate⟩
  · rintro ⟨first, notConst, notFresh, id, w, made, isLate⟩
    rw [← alike.definitions s name free] at first
    exact ⟨first, notConst, notFresh, id, w, alike.references.symm ▸ made, (late made).mpr isLate⟩

variable {size : Nat} (nested : t.IsNested size)

include nested

/-- A configured global that the text declares is not made anew in any loop, so what wrote late
still does. -/
theorem exists_changesAt_of_configured (is : configured name)
    (changes : (ofWalked t g).ChangesAt g loop 0 name d) :
    ∃ d', (ofWalked t g').ChangesAt g' loop 0 name d' := by
  obtain ⟨d', rest, first, kind⟩ := alike.implicit name is
  obtain ⟨-, -, -, id, w, made, isHome, named, writes, late⟩ := changes
  have inside := (walked.sound.referenced id w made).1
  have stale : freshPart d' = none := by simp [freshPart, kind]
  refine ⟨d', ⟨rest, first⟩, by simp [kind, Scope.DeclarationKind.isConstant],
    by simp [kind], id, w,
    alike.references.symm ▸ made, ?_, named, writes, ?_⟩
  · exact alike.home?_zero walked.sound.parent_lt inside walked.global isHome
  · rw [alike.variableScope?_eq, alike.variableScope?_eq, stale,
      topLoop_eq_of_alike alike walked walked']
    exact late.imp_right (Nat.le_trans (startOf_topLoop_none_le nested loop (freshPart d)))

/-- What changes changes with more globals configured as well. -/
theorem exists_changesAt_of_alike (changes : (ofWalked t g).ChangesAt g loop s name d) :
    ∃ d', (ofWalked t g').ChangesAt g' loop s name d' := by
  by_cases free : s ≠ 0 ∨ ¬ configured name
  · exact ⟨d, (changesAt_iff_of_alike alike walked walked' free).mpr changes⟩
  · obtain ⟨rfl, is⟩ : s = 0 ∧ configured name := by simpa [not_or] using free
    exact exists_changesAt_of_configured alike walked walked' nested is changes

end Changes

section Unsafe

variable {loop : NodeId} {id : ReferenceId} {r : Reference} {size : Nat}
  (nested : t.IsNested size)

include nested

/-- With more globals configured, an unsafe capture is unsafe. -/
theorem isUnsafe_of_alike (made : g.references[id]? = some r)
    (isUnsafe : (ofWalked t g).isUnsafe loop { r with resolved := g.meaning? t r } = true) :
    (ofWalked t g').isUnsafe loop { r with resolved := g'.meaning? t r } = true := by
  have inside := (walked.sound.referenced id r made).1
  obtain ⟨isValue, s, d, home, changes⟩ :=
    (isUnsafe_iff walked.sound walked.consistent r).mp isUnsafe
  obtain ⟨d', changes'⟩ := exists_changesAt_of_alike alike walked walked' nested changes
  refine (isUnsafe_iff walked'.sound walked'.consistent r).mpr ⟨isValue, s, d', ?_, changes'⟩
  by_cases outermost : s = 0
  · subst outermost
    exact alike.home?_zero walked.sound.parent_lt inside walked.global home
  · exact (alike.home?_iff walked.sound.parent_lt inside (.inl outermost)).mpr home

/-- Captures of one name by a function are unsafe together: with more globals configured, what is
unsafe was so before if another capture of its name was. -/
theorem isUnsafe_of_same_name (ordered : t.IsOrdered) {s : ScopeId} (inner : s ≠ 0)
    {id' : ReferenceId} {r' : Reference} (made : g.references[id]? = some r)
    (made' : g.references[id']? = some r') (same : r.name = r'.name)
    (through : id ∈ (ofWalked t g).graph.through s)
    (through' : id' ∈ (ofWalked t g).graph.through s)
    (later : (ofWalked t g').isUnsafe loop { r with resolved := g'.meaning? t r } = true)
    (isUnsafe : (ofWalked t g).isUnsafe loop { r' with resolved := g.meaning? t r' } = true) :
    (ofWalked t g).isUnsafe loop { r with resolved := g.meaning? t r } = true := by
  have inside := (walked.sound.referenced id r made).1
  obtain ⟨isValue, s₁, d₁, home₁, changes₁⟩ :=
    (isUnsafe_iff walked'.sound walked'.consistent r).mp later
  obtain ⟨isValue', s₂, d₂, home₂, changes₂⟩ :=
    (isUnsafe_iff walked.sound walked.consistent r').mp isUnsafe
  refine (isUnsafe_iff walked.sound walked.consistent r).mpr ⟨isValue, ?_⟩
  by_cases free : s₁ ≠ 0 ∨ ¬ configured r.name
  · exact ⟨s₁, d₁, (alike.home?_iff walked.sound.parent_lt inside free).mp home₁,
      (changesAt_iff_of_alike alike walked walked' free).mp changes₁⟩
  obtain ⟨rfl, is⟩ : s₁ = 0 ∧ configured r.name := by simpa [not_or] using free
  -- the home of the other capture is around the function, so it accepts both
  have parents := alike.parentOf_eq
  rw [← through_eq_of_alike alike walked walked' inner] at through
  obtain ⟨below', -⟩ := (Graph.mem_through_iff_of_home walked'.sound (alike.references.symm ▸ made)
    home₁ s).mp through
  have below := (Graph.isBelow_congr parents).mp below'
  obtain ⟨under, apart⟩ := (Graph.mem_through_iff_of_home walked.sound made' home₂ s).mp through'
  have around : g.IsBelow s s₂ :=
    ((Graph.isBelow_home walked.sound made' home₂).total under).resolve_left apart
  have other : s ≠ s₂ := fun eq => apart (eq ▸ ⟨0, rfl⟩)
  have accepted : (g.accepts? t s₂ r).isSome = true := by
    rw [Graph.isSome_accepts?_of_inner walked.sound walked.lawful nested ordered around other made'
      made under below same (isValue.trans isValue'.symm)]
    exact (Graph.home?_eq_some_iff.mp home₂).1
  -- with more globals, it would still accept the one before the global scope could
  by_cases outermost : s₂ = 0
  · subst outermost
    exact ⟨0, d₂, alike.home?_zero_of_accepts walked.sound.parent_lt inside home₁ accepted,
      same ▸ changes₂⟩
  · have first := Graph.isBelow_of_accepts walked'.sound (alike.references.symm ▸ made) home₁
      ((Graph.isBelow_congr parents).mpr (below.trans around))
      ((alike.isSome_accepts?_eq (.inl outermost)).trans accepted)
    exact absurd (Nat.le_zero.mp (first.le walked'.sound.parent_lt)) outermost

end Unsafe

omit alike walked' in
/-- The names of the unsafe captures of a function, by what was recorded. -/
theorem unsafeNames_ofWalked {closure : NodeId} {s : ScopeId}
    (opened : (ofWalked t g).graph.nodeScope? (some closure) = some s) (loop : NodeId) :
    (ofWalked t g).unsafeNames loop closure =
      (((((ofWalked t g).graph.through s).filterMap (g.references[·]?)).filter fun r =>
        (ofWalked t g).isUnsafe loop { r with resolved := g.meaning? t r }).map
          (·.name)).eraseDups := by
  rw [unsafeNames, opened, Option.elim_some, captures_ofWalked walked, List.filter_map,
    List.map_map]
  rfl

theorem exposingLoop?_eq_of_alike (closure : NodeId) :
    (ofWalked t g').exposingLoop? closure = (ofWalked t g).exposingLoop? closure := by
  simp only [exposingLoop?, containingLoop, isExempt_eq_of_alike alike walked walked',
    loopAround_eq_of_alike alike walked walked']
  rfl

section Findings

variable {size : Nat} (nested : t.IsNested size) (ordered : t.IsOrdered)

include nested ordered

/-- With more globals configured, further names may be told, and all stay in their order. -/
theorem sublist_unsafeNames {closure : NodeId} (isFunction : t.isFunction (some closure) = true)
    (loop : NodeId) : ((ofWalked t g).unsafeNames loop closure).Sublist
      ((ofWalked t g').unsafeNames loop closure) := by
  have same := nodeScope?_eq_of_alike (t := t) alike closure
  cases opened : (ofWalked t g).graph.nodeScope? (some closure) with
  | none => simp [unsafeNames, opened]
  | some s =>
    have inner := inner_of_nodeScope? walked isFunction opened
    rw [unsafeNames_ofWalked walked opened, unsafeNames_ofWalked walked' (same.trans opened),
      through_eq_of_alike alike walked walked' inner, alike.references]
    apply sublist_eraseDups_map
    · intro r mem isUnsafe
      obtain ⟨id, -, made⟩ := List.mem_filterMap.mp mem
      exact isUnsafe_of_alike alike walked walked' nested made isUnsafe
    · intro r mem r' mem' named later isUnsafe
      obtain ⟨id, through, made⟩ := List.mem_filterMap.mp mem
      obtain ⟨id', through', made'⟩ := List.mem_filterMap.mp mem'
      exact isUnsafe_of_same_name alike walked walked' nested ordered inner made made' named through
        through' later isUnsafe

theorem finding?_of_alike {closure : NodeId} {f : Finding}
    (given : (ofWalked t g).finding? closure = some f) : ∃ names, f.names.Sublist names ∧
      (ofWalked t g').finding? closure = some { f with names } := by
  obtain ⟨loop, exposing, given⟩ := Option.bind_eq_some_iff.mp given
  have exposing' := (exposingLoop?_eq_of_alike alike walked walked' closure).trans exposing
  have isFunction : t.isFunction (some closure) = true := by
    have exposes := exposing
    rw [exposingLoop?] at exposes
    split at exposes
    · rename_i holds
      obtain ⟨function, is, -⟩ :=
        (Option.any_eq_true _ _).mp (Bool.and_eq_true_iff.mp holds).1
      exact Syntax.Tree.isFunction_of_function? is
    · cases exposes
  have more := sublist_unsafeNames alike walked walked' nested ordered isFunction loop
  rw [findingOf?] at given
  split at given
  · cases given
  · rename_i named
    obtain ⟨span, spans, rfl⟩ := Option.map_eq_some_iff.mp given
    refine ⟨_, more, ?_⟩
    have named' : (ofWalked t g').unsafeNames loop closure ≠ [] := fun none =>
      named (List.isEmpty_iff.mpr (List.sublist_nil.mp (none ▸ more)))
    have spans' : (ofWalked t g').tree.span? (some closure) = some span := spans
    simp only [finding?, exposing', Option.bind_some, findingOf?, spans', Option.map_some,
      List.isEmpty_iff, if_neg named']
    rfl

end Findings

end Program

theorem mem_findings {p : Program} {f : Finding} :
    f ∈ p.findings ↔ ∃ closure ∈ p.closures, p.finding? closure = some f := by
  rw [Program.findings, (List.mergeSort_perm _ _).mem_iff, List.mem_filterMap]

/-- How what is found depends on the configured globals. -/
structure FindsMoreWithGlobals (find : Globals → List Finding) : Prop where
  /-- When all names that could be read or written still can, each finding stays, with its names in
  their order and maybe others among them. -/
  more : ∀ globals globals', (∀ name, globals.Enables name → globals'.Enables name) →
    ∀ f ∈ find globals, ∃ names, f.names.Sublist names ∧ { f with names } ∈ find globals'
  /-- Whether a global may be written makes no difference. -/
  access : ∀ before after name, find (before ++ (name, .readonly) :: after) =
    find (before ++ (name, .writable) :: after)
  /-- A name that is off counts as not configured. -/
  off : ∀ before after name, find (before ++ (name, .off) :: after) = find (before ++ after)

/-- Findings that only depend on the names that may be used depend on globals as they should. -/
theorem FindsMoreWithGlobals.of_enables {find : Globals → List Finding}
    (more : ∀ globals globals', (∀ name, globals.Enables name → globals'.Enables name) →
      ∀ f ∈ find globals, ∃ names, f.names.Sublist names ∧ { f with names } ∈ find globals')
    (same : ∀ globals globals', (∀ name, globals.Enables name ↔ globals'.Enables name) →
      find globals = find globals') : FindsMoreWithGlobals find where
  more := more
  access before after name := same _ _ fun other => by
    simp only [Globals.Enables, List.mem_append, List.mem_cons]
    grind
  off before after name := same _ _ fun other => by
    simp only [Globals.Enables, List.mem_append, List.mem_cons]
    grind

section OfText

variable (text : List Char) (sourceType : SourceType) {globals globals' : Globals}

/-- With more globals configured, the finding on a closure stays, with its names and maybe others.
-/
theorem finding?_ofText_of_enables (more : ∀ name, globals.Enables name → globals'.Enables name)
    {closure : NodeId} {f : Finding}
    (given : (Program.ofText text ⟨sourceType, globals⟩).finding? closure = some f) :
    ∃ names, f.names.Sublist names ∧
      (Program.ofText text ⟨sourceType, globals'⟩).finding? closure = some { f with names } := by
  have walked (globals : Globals) := Graph.walked_walkTree (childrenPrecede_parseText text)
    (Grammar.root_lt_parseText text) ⟨sourceType, globals⟩
  exact Program.finding?_of_alike (Scope.alike_walkTree _ sourceType more) (walked globals)
    (walked globals') (Grammar.isNested_parseText text) (Grammar.isOrdered_parseText text) given

/-- What is found depends on nothing but the names that may be used. -/
theorem findings_ofText_congr (same : ∀ name, globals.Enables name ↔ globals'.Enables name) :
    (Program.ofText text ⟨sourceType, globals⟩).findings =
      (Program.ofText text ⟨sourceType, globals'⟩).findings := by
  have kept {first second : Globals} (same : ∀ name, first.Enables name ↔ second.Enables name)
      {closure : NodeId} {f : Finding}
      (given : (Program.ofText text ⟨sourceType, first⟩).finding? closure = some f) :
      (Program.ofText text ⟨sourceType, second⟩).finding? closure = some f := by
    obtain ⟨names, more, given'⟩ :=
      finding?_ofText_of_enables text sourceType (fun name => (same name).mp) given
    obtain ⟨names', more', given''⟩ :=
      finding?_ofText_of_enables text sourceType (fun name => (same name).mpr) given'
    obtain rfl : f.names = names' := congrArg (·.names) (Option.some.inj (given.symm.trans given''))
    rw [given', ← more.antisymm more']
  have agree (closure : NodeId) : (Program.ofText text ⟨sourceType, globals⟩).finding? closure =
      (Program.ofText text ⟨sourceType, globals'⟩).finding? closure :=
    Option.ext fun f => ⟨kept same, kept fun name => (same name).symm⟩
  rw [Program.findings, Program.findings, funext agree]
  rfl

end OfText

/-- Whatever the text, what a session finds that has remembered nothing yet depends on the
configured globals as it should. -/
theorem findsMoreWithGlobals_ofText (text : List Char) (sourceType : SourceType) :
    FindsMoreWithGlobals fun globals =>
      ((Session.findings (.ofText text ⟨sourceType, globals⟩)).run {}).1 := by
  have answers (globals : Globals) :
      ((Session.findings (.ofText text ⟨sourceType, globals⟩)).run {}).1 =
        (Program.ofText text ⟨sourceType, globals⟩).findings :=
    (Session.answers_findings {} (Memory.sound_empty _)).1
  simp only [answers]
  refine .of_enables (fun globals globals' more f mem => ?_) fun globals globals' same =>
    findings_ofText_congr text sourceType same
  obtain ⟨closure, listed, given⟩ := mem_findings.mp mem
  obtain ⟨names, sublist, given'⟩ := finding?_ofText_of_enables text sourceType more given
  exact ⟨names, sublist, mem_findings.mpr ⟨closure, listed, given'⟩⟩

end Capture
end LoopCapture
