import LoopCapture.Grammar.Parse
import LoopCapture.Proofs.Syntax.Owned

/-!
# What a parse does with its nodes

A step holds nodes: those that it was given and those that it makes. It may store a node that it
holds as a child, and then holds it no longer; it may also forget one. What a program spends in this
way is read off the program alone, whatever the text, and the table stays in order.
-/

namespace LoopCapture.Grammar
open Syntax (Child NodeId NodeTable Shape Within)
open Syntax.NodeTable (Keeps Owned)

namespace Parse

variable {α β : Type}

/-- A step that starts out holding some nodes spends none but these, and afterwards its result and
what it still holds satisfy a condition. -/
def Spends : {α : Type} → Parse α → List NodeId → (α → List NodeId → Prop) → Prop
  | _, .done a, held, post => post a held
  | _, .andThen p next, held, post => p.Spends held fun a rest => (next a).Spends rest post
  | _, .observe _, held, post => ∀ a, post a held
  | _, .addNode _ _ shape, held, post =>
    ∃ rest, Within (shape.children ++ rest) held ∧ ∀ id, post id (id :: rest)
  | _, .reshape _ shape, held, post => shape.slots = [] ∧ post () held
  | _, .advance, held, post | _, .reread _, held, post | _, .reportHere _, held, post
  | _, .becomePattern _, held, post => post () held
  | _, .within _ p, held, post | _, .lookAhead p, held, post | _, .labelled _ p, held, post =>
    p.Spends held post
  | _, .guarded p, held, post | _, .attempt p, held, post => post none held ∧ p.Spends held post

/-- What a program spends it spends of the table, which stays in order; older nodes gain no
children. -/
theorem Spends.sound {p : Parse α} {held : List NodeId} {post : α → List NodeId → Prop} {s : State}
    (h : p.Spends held post) (owned : Owned s.nodes held) :
    ∃ rest, post (p.run s).1 rest ∧ Owned (p.run s).2.nodes rest ∧
      Keeps s.nodes (p.run s).2.nodes := by
  induction p generalizing held s with
  | done a => exact ⟨held, h, owned, .refl _⟩
  | andThen p next ihp ihn =>
    obtain ⟨middle, spends, between, before⟩ := ihp h owned
    obtain ⟨rest, holds, after, later⟩ := ihn _ spends between
    exact ⟨rest, holds, after, before.trans later⟩
  | observe look => exact ⟨held, h _, owned, .refl _⟩
  | addNode start stop shape =>
    obtain ⟨rest, fits, holds⟩ := h
    exact ⟨_, holds s.nodes.size, owned.push fits, Syntax.NodeTable.keeps_push _ _⟩
  | reshape node shape =>
    have keeps := Syntax.NodeTable.keeps_reshape s.nodes node h.1
    exact ⟨held, h.2, owned.keep (by simp [run, Syntax.NodeTable.reshape]) keeps, keeps⟩
  | advance => exact ⟨held, h, owned, .refl _⟩
  | reread again => exact ⟨held, h, owned, .refl _⟩
  | reportHere fault => exact ⟨held, h, owned, .refl _⟩
  | becomePattern node =>
    have keeps := Syntax.NodeTable.keeps_asPattern s.nodes node
    exact ⟨held, h, owned.keep (Syntax.NodeTable.asPattern_same node s.nodes).1 keeps, keeps⟩
  | within change p ih => exact ih (s := { s with context := change s.context }) h owned
  | guarded p ih =>
    by_cases free : s.depth < depthLimit
    · simpa [run, free] using ih (s := { s with depth := s.depth + 1 }) h.2 owned
    · have same : s.giveUp.nodes = s.nodes := by
        unfold State.giveUp
        split <;> rfl
      simp only [run, free, if_false, same]
      exact ⟨held, h.1, owned, .refl _⟩
  | lookAhead p ih => exact ih h owned
  | attempt p ih =>
    obtain ⟨rest, holds, after, keeps⟩ := ih h.2 owned
    by_cases kept : (p.run s).1.isSome ∧ (p.run s).2.errorCount = s.errorCount
    · simp only [run, State.mark, kept, and_self, if_true]
      exact ⟨rest, holds, after, keeps⟩
    · have back := Syntax.NodeTable.keeps_shrink keeps
      have size : ((p.run s).2.nodes.shrink s.nodes.size).size = s.nodes.size := by
        simp [keeps.size_le]
      simp only [run, State.mark, kept, if_false]
      exact ⟨held, h.1, owned.keep size back, back⟩
  | labelled label p ih => exact ih h owned

/-- Results that hand over nodes. -/
class Carries (α : Type) where
  carried : α → List NodeId

export Carries (carried)

instance : Carries NodeId := ⟨fun node => [node]⟩
instance : Carries Unit := ⟨fun _ => []⟩
instance : Carries Bool := ⟨fun _ => []⟩
instance : Carries String := ⟨fun _ => []⟩
instance : Carries Syntax.FunctionForm := ⟨fun _ => []⟩
instance : Carries Syntax.DeclarationWord := ⟨fun _ => []⟩
instance [Carries α] : Carries (Option α) := ⟨fun a => a.elim [] carried⟩
instance [Carries α] : Carries (List α) := ⟨fun l => l.flatMap carried⟩
instance [Carries α] : Carries (Array α) := ⟨fun l => l.toList.flatMap carried⟩
instance [Carries α] [Carries β] : Carries (α × β) := ⟨fun p => carried p.1 ++ carried p.2⟩

end Parse
end LoopCapture.Grammar
