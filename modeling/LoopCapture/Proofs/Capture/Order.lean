import LoopCapture.Proofs.Capture.Finding
import LoopCapture.Proofs.Grammar.Placed
import LoopCapture.Proofs.Scope.Order

/-!
# Captures in source order

The references that pass through a scope, and the names in a finding, come in the order of the text,
unless they are in different parts of one of three constructs: an assertion in angle brackets, a
pattern, or the head of a loop over keys or elements.
-/

namespace LoopCapture
open Syntax (NodeId)
open Scope (Environment Reference ReferenceId ScopeId)

namespace Scope.Graph

open Syntax (Tree)

variable {t : Tree} {g : Graph}

/-- Resolution tells what references mean and leaves them where they are. -/
theorem pairwise_comesBefore_resolveAll (sound : g.Sound)
    (h : g.references.toList.Pairwise (Reference.ComesBefore t)) {id id' : ReferenceId}
    {r r' : Reference} (made : (g.resolveAll t).references[id]? = some r)
    (made' : (g.resolveAll t).references[id']? = some r') (lt : id < id') :
    r.ComesBefore t r' := by
  obtain ⟨old, was, rfl⟩ := made_resolveAll sound made
  obtain ⟨old', was', rfl⟩ := made_resolveAll sound made'
  have before : old.ComesBefore t old' := by
    obtain ⟨bound, is⟩ := List.getElem?_eq_some_iff.mp ((Array.getElem?_toList ..).trans was)
    obtain ⟨bound', is'⟩ := List.getElem?_eq_some_iff.mp ((Array.getElem?_toList ..).trans was')
    exact is ▸ is' ▸ List.pairwise_iff_getElem.mp h id id' bound bound' lt
  exact before

end Scope.Graph

namespace Capture

/-- The references pass through a scope, and are named in findings, in the order of the text, unless
they cross. -/
structure CapturesInOrder (p : Program) : Prop where
  through : ∀ s, (p.captures s).Pairwise (Reference.ComesBefore p.tree)
  /-- The names in a finding are those of the first unsafe captures that carry them. -/
  names : ∀ finding ∈ p.findings, ∃ loop scope, p.IsExposed finding.closure loop scope ∧
    ∃ firsts : List Reference, finding.names = firsts.map (·.name) ∧
      firsts.Sublist ((p.captures scope).filter (p.isUnsafe loop)) ∧
      firsts.Pairwise (Reference.ComesBefore p.tree) ∧
      ∀ r ∈ (p.captures scope).filter (p.isUnsafe loop),
        ∃ first ∈ firsts, first.name = r.name ∧ first.ComesBefore p.tree r

/-- Each name is told once, by the first reference that carries it. -/
theorem exists_firsts {R : Reference → Reference → Prop} (refl : ∀ r, R r r) {l : List Reference}
    (ordered : l.Pairwise R) :
    ∃ firsts : List Reference, (l.map (·.name)).eraseDups = firsts.map (·.name) ∧
      firsts.Sublist l ∧ ∀ r ∈ l, ∃ first ∈ firsts, first.name = r.name ∧ R first r := by
  induction size : l.length using Nat.strongRecOn generalizing l with
  | ind n ih =>
    cases l with
    | nil => exact ⟨[], rfl, .slnil, by simp⟩
    | cons r rest =>
      obtain ⟨before, ordered⟩ := List.pairwise_cons.mp ordered
      -- the references after the first one that carry another name
      have others : (rest.filter fun other => !other.name == r.name).Sublist rest :=
        List.filter_sublist
      have shorter : (rest.filter fun other => !other.name == r.name).length < n :=
        size ▸ Nat.lt_succ_of_le others.length_le
      obtain ⟨firsts, names, sub, all⟩ := ih _ shorter (ordered.sublist others) rfl
      refine ⟨r :: firsts, ?_, (sub.trans others).cons_cons r, fun other mem => ?_⟩
      · simp [List.eraseDups_cons, List.filter_map, ← names, Function.comp_def]
      · by_cases same : other.name = r.name
        · refine ⟨r, List.mem_cons_self, same.symm, ?_⟩
          obtain rfl | later := List.mem_cons.mp mem
          · exact refl other
          · exact before other later
        · have later := (List.mem_cons.mp mem).resolve_left fun is => same (is ▸ rfl)
          obtain ⟨first, mem, named, comes⟩ :=
            all other (List.mem_filter.mpr ⟨later, by simpa using same⟩)
          exact ⟨first, List.mem_cons_of_mem r mem, named, comes⟩

theorem pairwise_references {p : Program} {R : Reference → Reference → Prop}
    (h : ∀ (id id' : ReferenceId) (r r' : Reference), p.graph.references[id]? = some r →
      p.graph.references[id']? = some r' → id < id' → R r r') {ids : List ReferenceId}
    (increasing : ids.Pairwise (· < ·)) : (p.references ids).Pairwise R :=
  List.pairwise_filterMap.mpr (increasing.imp fun lt r made r' made' => h _ _ r r' made made' lt)

/-- A finding names the unsafe captures of its closure in the loop that the closure is exposed in.
-/
theorem names_eq_unsafeNames {p : Program} {closure loop : NodeId} {finding : Finding}
    {scope : ScopeId} (given : p.finding? closure = some finding)
    (exposed : p.IsExposed closure loop scope) : finding.names = p.unsafeNames loop closure := by
  have exposing : p.exposingLoop? closure = some loop := by
    simp [Program.exposingLoop?, exposed.hasBody, exposed.notExempt, exposed.containingLoop]
  rw [Program.finding?, exposing, Option.bind_some, Program.findingOf?] at given
  split at given
  · cases given
  · obtain ⟨span, -, rfl⟩ := Option.map_eq_some_iff.mp given
    rfl

/-- Where references are recorded in order, they pass through scopes and are named in order. -/
theorem capturesInOrder_of_recorded {p : Program} (linked : p.graph.Linked p.tree)
    (recorded : ∀ (id id' : ReferenceId) (r r' : Reference), p.graph.references[id]? = some r →
      p.graph.references[id']? = some r' → id < id' → r.ComesBefore p.tree r') :
    CapturesInOrder p := by
  have through (s : ScopeId) : (p.captures s).Pairwise (Reference.ComesBefore p.tree) :=
    pairwise_references recorded (linked.resolved.through_increasing s)
  refine ⟨through, fun finding mem => ?_⟩
  obtain ⟨closure, -, given⟩ := List.mem_filterMap.mp (List.mem_mergeSort.mp mem)
  obtain ⟨rfl, -, loop, scope, exposed, -⟩ := isExposed_of_finding linked given
  have unsafeCaptures : ((p.captures scope).filter (p.isUnsafe loop)).Pairwise
      (Reference.ComesBefore p.tree) := (through scope).sublist List.filter_sublist
  obtain ⟨firsts, names, sub, all⟩ :=
    exists_firsts (Reference.ComesBefore.refl (t := p.tree)) unsafeCaptures
  refine ⟨loop, scope, exposed, firsts, ?_, sub, unsafeCaptures.sublist sub, all⟩
  rw [names_eq_unsafeNames given exposed, Program.unsafeNames, exposed.nodeScope, Option.elim_some,
    names]

/-- Whatever text and whatever surroundings, captures are told in the order of the text, unless they
are in different parts of an assertion in angle brackets, of a pattern, or of the head of a loop
over keys or elements. -/
theorem capturesInOrder_ofText (text : List Char) (environment : Environment) :
    CapturesInOrder (.ofText text environment) := by
  have recorded := Scope.pairwise_walkTree (Grammar.isNested_parseText text)
    (Grammar.isOrdered_parseText text) environment
  exact capturesInOrder_of_recorded (Scope.Graph.linked_ofTree _ environment)
    fun _ _ _ _ made made' lt => Scope.Graph.pairwise_comesBefore_resolveAll
      (Scope.sound_walkTree _ environment) recorded made made' lt

end Capture
end LoopCapture
