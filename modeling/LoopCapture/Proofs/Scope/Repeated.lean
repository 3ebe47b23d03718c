import LoopCapture.Proofs.Scope.Enclosure
import LoopCapture.Proofs.Scope.WellFormed

/-!
# Identifiers that are used more than once

A target is used once for each default it stands under, once for an initializer of the whole, and
once more where a loop assigns it in each round. All these uses of one identifier are made from one
scope and mean the same, so looking at the first of them is enough.
-/

namespace LoopCapture
open Syntax (NodeId Tree)

namespace Scope

/-- The uses tell the same of their identifier, but for whether its value is read or written. -/
structure Reference.Repeats (r r' : Reference) : Prop where
  scope : r.scope = r'.scope
  name : r.name = r'.name
  start : r.start = r'.start
  isType : r.usage.isType = r'.usage.isType

namespace Graph

variable {g : Graph} {t : Tree} {r r' : Reference}

/-- What a reference may mean is not a matter of whether it reads or writes. -/
theorem accepts?_eq_of_repeats (h : r.Repeats r') (s : ScopeId) :
    g.accepts? t s r = g.accepts? t s r' := by
  rw [accepts?, accepts?, h.name, h.start, h.isType]

theorem meaning?_eq_of_repeats (h : r.Repeats r') : g.meaning? t r = g.meaning? t r' := by
  rw [meaning?, meaning?, snd_route, snd_route, h.scope]
  exact congrArg (List.findSome? · _) (funext (accepts?_eq_of_repeats h))

/-- All references of one identifier are made alike and mean the same, which is what the graph tells
of the identifier. -/
structure UsesAgree (g : Graph) : Prop where
  repeats : ∀ (id id' : ReferenceId) (r r' : Reference), g.references[id]? = some r →
    g.references[id']? = some r' → r.identifier = r'.identifier → r.Repeats r'
  resolved : ∀ (id id' : ReferenceId) (r r' : Reference), g.references[id]? = some r →
    g.references[id']? = some r' → r.identifier = r'.identifier → r.resolved = r'.resolved
  resolvedBinding? : ∀ (id : ReferenceId) (r : Reference), g.references[id]? = some r →
    g.resolvedBinding? (some r.identifier) = r.resolved

/-- The first reference of an identifier that has one is a reference of the identifier. -/
theorem exists_first_reference {id : ReferenceId} (made : g.references[id]? = some r) :
    ∃ (first : ReferenceId) (r' : Reference), g.references[first]? = some r' ∧
      r'.identifier = r.identifier ∧ g.resolvedBinding? (some r.identifier) = r'.resolved := by
  have mem : r ∈ g.references := Array.mem_of_getElem? made
  cases found : g.references.find? (some ·.identifier == some r.identifier) with
  | none => simpa using Array.find?_eq_none.mp found r mem
  | some r' =>
    obtain ⟨first, is⟩ := Array.mem_iff_getElem?.mp (Array.mem_of_find?_eq_some found)
    have same := Array.find?_some found
    exact ⟨first, r', is, by simpa using same, by rw [Graph.resolvedBinding?, found]; rfl⟩

/-- Resolution follows the same way for references that are made alike. -/
theorem usesAgree_resolveAll (sound : g.Sound) (h : ∀ (id id' : ReferenceId) (r r' : Reference),
    g.references[id]? = some r → g.references[id']? = some r' → r.identifier = r'.identifier →
      r.Repeats r') : (g.resolveAll t).UsesAgree := by
  have resolved (id id' : ReferenceId) (r r' : Reference)
      (made : (g.resolveAll t).references[id]? = some r)
      (made' : (g.resolveAll t).references[id']? = some r')
      (same : r.identifier = r'.identifier) : r.Repeats r' ∧ r.resolved = r'.resolved := by
    obtain ⟨old, was, rfl⟩ := made_resolveAll sound made
    obtain ⟨old', was', rfl⟩ := made_resolveAll sound made'
    have before := h id id' old old' was was' same
    exact ⟨⟨before.scope, before.name, before.start, before.isType⟩, meaning?_eq_of_repeats before⟩
  refine ⟨fun id id' r r' made made' same => (resolved id id' r r' made made' same).1,
    fun id id' r r' made made' same => (resolved id id' r r' made made' same).2,
    fun id r made => ?_⟩
  obtain ⟨first, r', is, same, eq⟩ := exists_first_reference made
  exact eq.trans (resolved first id r' r is made same).2

end Graph

/-- A walk makes all uses of one identifier alike. -/
theorem repeats_walkTree {t : Tree} (owned : t.nodes.Owned [t.root]) (environment : Environment)
    {id id' : ReferenceId} {r r' : Reference}
    (made : ((walkTree t environment).run { graph := .empty t }).2.graph.references[id]? = some r)
    (made' : ((walkTree t environment).run { graph := .empty t }).2.graph.references[id']? =
      some r')
    (same : r.identifier = r'.identifier) : r.Repeats r' := by
  obtain ⟨new, adds⟩ := extends_walkTree owned environment
  have recorded := adds.recorded
  rw [show (Graph.empty t).references.toList = [] from rfl, List.nil_append] at recorded
  have listed {id : ReferenceId} {r : Reference} (made : ((walkTree t environment).run
      { graph := .empty t }).2.graph.references[id]? = some r) : r ∈ new :=
    recorded ▸ Array.mem_toList_iff.mpr (Array.mem_of_getElem? made)
  obtain ⟨scope, isType⟩ := adds.agree r (listed made) r' (listed made') same
  have lawful := lawful_walkTree owned.precede (owned.lt_size List.mem_cons_self) environment
  obtain ⟨name, start⟩ := lawful.spelled id r made
  obtain ⟨name', start'⟩ := lawful.spelled id' r' made'
  rw [same] at name start
  exact ⟨scope, Option.some.inj (name.symm.trans name'), start.symm.trans start', isType⟩

end Scope

namespace Capture

/-- Whatever text and whatever surroundings, what the first reference of an identifier tells, all of
them tell. -/
theorem usesAgree_ofText (text : List Char) (environment : Scope.Environment) :
    (Program.ofText text environment).graph.UsesAgree :=
  Scope.Graph.usesAgree_resolveAll (Scope.sound_walkTree _ environment) fun _ _ _ _ =>
    Scope.repeats_walkTree (Grammar.owned_parseText text) environment

end Capture
end LoopCapture
