import LoopCapture.Proofs.Capture.Change
import LoopCapture.Proofs.Grammar.Attached
import LoopCapture.Proofs.Scope.Coverage.Routines

/-!
# Closures are reached

In a text without errors every function is reached from the root and has a scope of its own, but for
those in the few parts that a parser leaves out of the tree or a walk overlooks.
-/

namespace LoopCapture.Capture
open Syntax (NodeId Tree)
open Grammar (parseText)

variable {text : List Char} {x : NodeId}

theorem below_of_partOf {t : Tree} {y : NodeId} (part : t.nodes.PartOf x y) : t.Below x y :=
  part.lift id fun _ _ houses => houses.mem_childrenOf

/-- A node that is covered when a tree has been walked has a scope in the graph of the tree, unless
it is overlooked. -/
theorem overlooked_or_isSome_nodeScope? {t : Tree} {environment : Scope.Environment}
    (covers : ((Scope.walkTree t environment).run { graph := .empty t }).2.graph.Covers t t.root)
    (isFunction : t.isFunction (some x) = true) (part : t.nodes.PartOf x t.root) :
    (∃ y, t.Overlooks y ∧ t.nodes.PartOf x y) ∨
      ((Scope.Graph.ofTree t environment).nodeScope? (some x)).isSome = true := by
  rw [Scope.Graph.ofTree, Scope.Graph.nodeScope?_resolveAll]
  exact covers x part isFunction

/-- Without errors, a function is in what the parser left out, or it is below the root. Then it is
in what a walk overlooks, or the walk gave it a scope of its own. -/
theorem closure_reached (valid : (parseText text).errors = []) (environment : Scope.Environment)
    (isFunction : (parseText text).tree.isFunction (some x) = true) :
    (∃ y, Grammar.sourceFile.LeftOut y (.ofText text) ∧ (parseText text).tree.nodes.PartOf x y) ∨
    (parseText text).tree.Below x (parseText text).tree.root ∧
      ((∃ y, (parseText text).tree.Overlooks y ∧ (parseText text).tree.nodes.PartOf x y) ∨
        ∃ (s : Scope.ScopeId) (scope : Scope),
          (Program.ofText text environment).graph.nodeScope? (some x) = some s ∧
          (Program.ofText text environment).graph.scopes[s]? = some scope ∧
          scope.block = x ∧ scope.kind = .function) := by
  have lt : x < (parseText text).tree.nodes.size := by
    obtain ⟨f, is⟩ := Tree.isFunction_iff.mp isFunction
    obtain ⟨n, found, -⟩ := Option.map_eq_some_iff.mp is
    exact (Array.getElem?_eq_some_iff.mp found).1
  obtain ⟨top, part, rfl | out⟩ :=
    Grammar.exists_partOf_parseText valid lt (Tree.not_hasRole_name_of_isFunction isFunction)
  · refine .inr ⟨below_of_partOf part, ?_⟩
    have covers := Scope.covers_walkTree (childrenPrecede_parseText text)
      (Grammar.hasRole_root_parseText valid) environment
    refine (overlooked_or_isSome_nodeScope? covers isFunction part).imp_right fun opened => ?_
    obtain ⟨s, opened⟩ := Option.isSome_iff_exists.mp opened
    obtain ⟨scope, found, block, -, kind⟩ :=
      (wellFormed_ofText text environment).2.opened x s opened
    exact ⟨s, scope, opened, found, block, kind isFunction⟩
  · exact .inl ⟨top, out, part⟩

/-- A function that is assigned where its variable is declared. -/
def initializerText : List Char := "var f = function () \x7b\x7d;".toList

theorem closure_reached_in_initializer :
    (parseText initializerText).errors = [] ∧
    (parseText initializerText).tree.isFunction (some 2) = true ∧
    ((∃ y, Grammar.sourceFile.LeftOut y (.ofText initializerText) ∧
        (parseText initializerText).tree.nodes.PartOf 2 y) ∨
      (parseText initializerText).tree.Below 2 (parseText initializerText).tree.root ∧
      ((∃ y, (parseText initializerText).tree.Overlooks y ∧
          (parseText initializerText).tree.nodes.PartOf 2 y) ∨
        ∃ (s : Scope.ScopeId) (scope : Scope),
          (Program.ofText initializerText ⟨.script, []⟩).graph.nodeScope? (some 2) = some s ∧
          (Program.ofText initializerText ⟨.script, []⟩).graph.scopes[s]? = some scope ∧
          scope.block = 2 ∧ scope.kind = .function)) :=
  have valid : (parseText initializerText).errors = [] := by decide +kernel
  have isFunction : (parseText initializerText).tree.isFunction (some 2) = true := by decide +kernel
  ⟨valid, isFunction, closure_reached valid ⟨.script, []⟩ isFunction⟩

/-- A function in a decorator, which the parser leaves out. -/
def decoratorText : List Char := "@(function () \x7b\x7d) class A \x7b\x7d".toList

/-- A function in the target of a signature's parameter, which the walk overlooks. -/
def signatureText : List Char := "0 as ([a = function () \x7b\x7d]) => void;".toList

theorem not_below_of_orphan {t : Tree} {y : NodeId} (other : x ≠ y)
    (orphan : ∀ z < t.nodes.size, x ∉ t.children z) : ¬ t.Below x y := by
  intro below
  obtain rfl | ⟨z, mem, -⟩ := Relation.ReflTransGen.cases_head below
  · exact other rfl
  · exact orphan z (Syntax.NodeTable.lt_size_of_mem_childrenOf mem) mem

theorem closure_not_reached :
    ((parseText decoratorText).errors = [] ∧
      (((parseText decoratorText).tree.function? (some 1)).any fun f => f.body.isSome) = true ∧
      ¬ (parseText decoratorText).tree.Below 1 (parseText decoratorText).tree.root) ∧
    ((parseText signatureText).errors = [] ∧
      (((parseText signatureText).tree.function? (some 3)).any fun f => f.body.isSome) = true ∧
      (Program.ofText signatureText ⟨.script, []⟩).graph.nodeScope? (some 3) = none) := by
  refine ⟨⟨by decide +kernel, by decide +kernel, ?_⟩, by decide +kernel, by decide +kernel, ?_⟩
  · exact not_below_of_orphan (by decide +kernel) (by decide +kernel)
  · decide +kernel

end LoopCapture.Capture
