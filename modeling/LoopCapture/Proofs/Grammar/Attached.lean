import LoopCapture.Proofs.Grammar.Attachment.Statements
import LoopCapture.Proofs.Grammar.Placed

/-!
# Where the nodes of a text are

Without errors, every node that a text is parsed to is a name, or it is reached from the root, or
from a node that was left out of the tree.
-/

namespace LoopCapture.Grammar
open Syntax (NodeId NodeTable standing)
open Text (byteSize)
open Parse

attribute [local simp] carried_nodes toList_eq_carried mem_carried mem_carried_array

variable {text : List Char}

theorem settles_sourceFile : Settles anyway [] sourceFile fun root => [(root, .part)] := by
  refine .skip fun _ => .skip fun s => ?_
  have goals : Attaches (parseWithin s.size) := attaches_parseUpTo _
  refine .part fun statements => settles_addNode [] (by simp) ?_
  simp +contextual [Syntax.Shape.places, Syntax.Shape.slots]

/-- Without errors, the construct for a whole text accounts for every node that it makes. -/
theorem accounts_parseText (valid : (parseText text).errors = []) :
    Accounts anyway [] sourceFile (fun root => [(root, .part)]) (.ofText text) := by
  have errors : (sourceFile.run (.ofText text)).2.errors = #[] := by
    by_contra some
    exact not_isFaulty_of_syntaxErrors valid (.inl some)
  exact settles_sourceFile (transacts_sourceFile text) errors (by simp)

theorem hasRole_root_parseText (valid : (parseText text).errors = []) :
    (parseText text).tree.nodes.HasRole (parseText text).tree.root .part :=
  (accounts_parseText valid).stands trivial _ _ (List.mem_singleton_self _)

/-- Without errors, every node but the root is a name, has a place in another node, or was left
out. -/
theorem settled_parseText (valid : (parseText text).errors = []) {x : NodeId}
    (lt : x < (parseText text).tree.nodes.size) :
    sourceFile.LeftOut x (.ofText text) ∨ (parseText text).tree.nodes.HasRole x .name ∨
      x = (parseText text).tree.root ∨ ∃ y, (parseText text).tree.nodes.Houses y x := by
  have settled := (accounts_parseText valid).settles trivial x (.inr ⟨Nat.zero_le x, lt⟩)
  refine settled.imp_right fun settled => settled.imp_right fun settled => settled.imp_left ?_
  rintro ⟨role, isRoot⟩
  exact (Prod.mk.inj (List.mem_singleton.mp isRoot)).1

/-- Without errors, every node that is no name is reached from the root or from one that was left
out. -/
theorem exists_partOf_parseText (valid : (parseText text).errors = []) {x : NodeId}
    (lt : x < (parseText text).tree.nodes.size)
    (other : ¬ (parseText text).tree.nodes.HasRole x .name) :
    ∃ y, (parseText text).tree.nodes.PartOf x y ∧
      (y = (parseText text).tree.root ∨ sourceFile.LeftOut y (.ofText text)) := by
  induction left : (parseText text).tree.nodes.size - x using Nat.strongRecOn generalizing x with
  | ind n ih =>
    obtain out | named | isRoot | ⟨y, houses⟩ := settled_parseText valid lt
    · exact ⟨x, .refl, .inr out⟩
    · exact absurd named other
    · exact ⟨x, .refl, .inl isRoot⟩
    · have mem := houses.mem_childrenOf
      have after := (owned_parseText text).precede y x mem
      have lt' := Syntax.NodeTable.lt_size_of_mem_childrenOf mem
      have later : (parseText text).tree.nodes.size - y < n := left ▸ Nat.sub_lt_sub_left lt after
      obtain ⟨top, partOf, reached⟩ := ih _ later lt'
        (Syntax.NodeTable.not_hasRole_name_of_houses houses) rfl
      exact ⟨top, .head houses partOf, reached⟩

end LoopCapture.Grammar
