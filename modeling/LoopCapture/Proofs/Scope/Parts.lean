import LoopCapture.Proofs.Syntax.Descent
import LoopCapture.Proofs.Syntax.Reshaping
import LoopCapture.Scope.Walk

/-!
# What a pattern is taken apart into

The targets of a pattern, what it evaluates and the types it carries are under the pattern, or they
are the pattern itself.
-/

namespace LoopCapture
open Syntax (Child NodeId Shape Tree)

/-- The shapes that are taken apart where a pattern stands. The others are evaluated there. -/
def Syntax.Shape.isTakenApart : Shape → Bool
  | .objectPattern _ | .arrayPattern _ | .assignmentPattern .. | .restElement _
  | .parameter .. | .nonNull _ | .typeCast .. | .propertyName _ => true
  | _ => false

namespace Syntax.Tree

def walked (t : Tree) (node : NodeId) : List NodeId :=
  (t.nodes.shape? node).elim [] Shape.walked

/-- The children of a node that stand one after the other. -/
def row (t : Tree) (node : NodeId) : List NodeId :=
  (t.nodes.shape? node).elim [] Shape.row

/-- A walk may come from the second node to the first one that is under it. -/
def Entered (t : Tree) : NodeId → NodeId → Prop := Relation.TransGen fun x y => x ∈ t.walked y

variable {t : Tree} {x y z : NodeId}

theorem row_sublist_walked (t : Tree) (node : NodeId) : (t.row node).Sublist (t.walked node) := by
  unfold row walked
  cases t.nodes.shape? node with
  | none => exact .refl _
  | some shape => exact shape.row_sublist_walked

theorem mem_children_of_mem_walked (mem : x ∈ t.walked y) : x ∈ t.children y := by
  unfold walked at mem
  cases is : t.nodes.shape? y with
  | none => simp [is] at mem
  | some shape =>
    simp only [is, Option.elim_some] at mem
    simp only [children, is, Option.elim_some]
    exact shape.walked_sublist_children.subset mem

theorem Entered.under (h : t.Entered x y) : t.Under x y := by
  induction h with
  | single mem => exact .child (mem_children_of_mem_walked mem)
  | tail _ mem ih => exact ih.trans (.child (mem_children_of_mem_walked mem))

theorem Entered.trans (h : t.Entered x y) (h' : t.Entered y z) : t.Entered x z :=
  Relation.TransGen.trans h h'

theorem Entered.walked {shape : Shape} (is : t.nodes.shape? y = some shape)
    (mem : x ∈ shape.walked) : t.Entered x y :=
  .single (by simpa [Tree.walked, is] using mem)

theorem Entered.slot {shape : Shape} (is : t.nodes.shape? y = some shape)
    (mem : some x ∈ shape.slots) (all : shape.walked = shape.children := by rfl) :
    t.Entered x y :=
  .walked is (by simpa [all, Shape.children] using mem)

end Syntax.Tree

namespace Scope

variable {t : Tree}

namespace PatternParts

def into (t : Tree) (node : NodeId) (parts : PatternParts) (part : Child) (defaults : Nat) :
    PatternParts :=
  match part with
  | some part => if part < node then addFrom t parts part defaults else parts
  | none => parts

/-- What a pattern was taken apart into has a property. -/
structure All (P : NodeId → Prop) (parts : PatternParts) : Prop where
  targets : ∀ target ∈ parts.targets, P target.identifier
  evaluated : ∀ node ∈ parts.evaluated, P node
  types : ∀ node ∈ parts.types, P node

variable {P Q : NodeId → Prop} {parts : PatternParts}

theorem all_empty : All P {} := ⟨by simp, by simp, by simp⟩

theorem All.imp (h : parts.All P) (imp : ∀ x, P x → Q x) : parts.All Q :=
  ⟨fun x mem => imp _ (h.targets x mem), fun x mem => imp _ (h.evaluated x mem),
    fun x mem => imp _ (h.types x mem)⟩

theorem All.evaluate (h : parts.All P) {node : Child} (new : ∀ x, node = some x → P x) :
    (parts.evaluate node).All P where
  targets := h.targets
  evaluated x mem := by
    obtain old | here := Array.mem_append.mp mem
    · exact h.evaluated x old
    · exact new x (by simpa using here)
  types := h.types

theorem All.annotate (h : parts.All P) {type : Child} (new : ∀ x, type = some x → P x) :
    (parts.annotate type).All P where
  targets := h.targets
  evaluated := h.evaluated
  types x mem := by
    obtain old | here := Array.mem_append.mp mem
    · exact h.types x old
    · exact new x (by simpa using here)

/-- The node may be a part of the pattern: it is entered from the pattern, or it is the pattern and
that is not taken apart. -/
def MayBePart (t : Tree) (pattern x : NodeId) : Prop :=
  t.Entered x pattern ∨
    x = pattern ∧ ∀ shape, t.nodes.shape? pattern = some shape → shape.isTakenApart = false

/-- What each addition of a part keeps holds of all that a pattern is taken apart into. -/
theorem addFrom_induction {I : PatternParts → Prop} {node : NodeId}
    (target : ∀ parts x name defaults, MayBePart t node x →
      t.nodes.shape? x = some (.identifier name) → I parts →
      I { parts with targets := parts.targets.push ⟨x, defaults⟩ })
    (evaluate : ∀ parts child, (∀ x, child = some x → MayBePart t node x) → I parts →
      I (parts.evaluate child))
    (annotate : ∀ parts child, (∀ x, child = some x → MayBePart t node x) → I parts →
      I (parts.annotate child)) (h : I parts) (defaults : Nat) :
    I (addFrom t parts node defaults) := by
  induction node using Nat.strongRecOn generalizing parts defaults with
  | ind node ih =>
    -- a part of what is entered from the pattern
    have later {x inner : NodeId} (here : t.Entered inner node) (part : MayBePart t inner x) :
        MayBePart t node x := by
      obtain entered | ⟨rfl, -⟩ := part
      · exact .inl (entered.trans here)
      · exact .inl here
    have into {parts : PatternParts} (h : I parts) {part : NodeId} (defaults : Nat)
        (here : t.Entered part node) :
        I (if part < node then addFrom t parts part defaults else parts) := by
      split
      · refine ih part ‹_› ?_ ?_ ?_ h defaults
        · exact fun parts x name defaults part => target parts x name defaults (later here part)
        · exact fun parts child part => evaluate parts child fun x is => later here (part x is)
        · exact fun parts child part => annotate parts child fun x is => later here (part x is)
      · exact h
    have fold {α : Type} {l : List α} {add : PatternParts → α → PatternParts}
        (step : ∀ parts : PatternParts, ∀ x ∈ l, I parts → I (add parts x)) {parts : PatternParts}
        (h : I parts) : I (l.foldl add parts) := by
      induction l generalizing parts with
      | nil => exact h
      | cons x l ih =>
        exact ih (fun parts y mem => step parts y (List.mem_cons_of_mem x mem))
          (step parts x List.mem_cons_self h)
    rw [addFrom]
    split
    case h_1 => exact h
    case h_2 name is =>
      exact target parts node name defaults
        (.inr ⟨rfl, fun shape same => Option.some.inj (is.symm.trans same) ▸ rfl⟩) is h
    case h_3 properties is =>
      refine fold (fun parts property mem h => ?_) h
      have here : t.Entered property node := .slot is (List.mem_map_of_mem mem)
      split
      · rename_i p prop
        have kept : I (if p.computed then parts.evaluate p.key else parts) := by
          split
          · rename_i computed
            exact evaluate parts p.key (fun x key => .inl
              ((Tree.Entered.walked prop (by simp [Shape.walked, computed, key])).trans here)) h
          · exact h
        cases value : p.value with
        | none => exact kept
        | some part =>
          refine into kept _ ((Tree.Entered.walked prop ?_).trans here)
          by_cases computed : p.computed <;> simp [Shape.walked, computed, value]
      · exact into h _ here
    case h_4 elements is =>
      refine fold (fun parts element mem h => ?_) h
      cases element with
      | none => exact h
      | some part => exact into h _ (.slot is mem)
    case h_5 left right is =>
      refine evaluate _ right (fun x same => .inl (.slot is (by simp [Shape.slots, same]))) ?_
      cases left with
      | none => exact h
      | some part => exact into h _ (.slot is (by simp [Shape.slots]))
    case h_6 argument is =>
      cases argument with
      | none => exact h
      | some part => exact into h _ (.slot is (by simp [Shape.slots]))
    case h_7 pattern _ type is =>
      refine annotate _ type (fun x same => .inl (.slot is (by simp [Shape.slots, same]))) ?_
      cases pattern with
      | none => exact h
      | some part => exact into h _ (.slot is (by simp [Shape.slots]))
    case h_8 inner is =>
      cases inner with
      | none => exact h
      | some part => exact into h _ (.slot is (by simp [Shape.slots]))
    case h_9 inner type is =>
      refine annotate _ type (fun x same => .inl (.slot is (by simp [Shape.slots, same]))) ?_
      cases inner with
      | none => exact h
      | some part => exact into h _ (.slot is (by simp [Shape.slots]))
    case h_10 => exact h
    case h_11 shape _ _ _ _ _ _ _ _ _ is =>
      refine evaluate parts node (fun x same => .inr ⟨(Option.some.inj same).symm, ?_⟩) h
      intro other same
      obtain rfl := Option.some.inj (is.symm.trans same)
      cases shape <;> first | rfl | grind

theorem All.addFromParts (h : parts.All P) {node : NodeId} (defaults : Nat)
    (part : ∀ x, MayBePart t node x → P x) :
    (PatternParts.addFrom t parts node defaults).All P := by
  refine addFrom_induction (I := All P) ?_ ?_ ?_ h defaults
  · intro parts x name defaults isPart _ h
    refine ⟨fun y mem => ?_, h.evaluated, h.types⟩
    obtain old | rfl := Array.mem_push.mp mem
    · exact h.targets y old
    · exact part x isPart
  · exact fun parts child isPart h => h.evaluate fun x is => part x (isPart x is)
  · exact fun parts child isPart h => h.annotate fun x is => part x (isPart x is)

/-- What is added is under the pattern, or the pattern is not taken apart and is added itself. -/
theorem All.addFrom (h : parts.All P) {node : NodeId} (defaults : Nat)
    (self : (∀ shape, t.nodes.shape? node = some shape → shape.isTakenApart = false) → P node)
    (under : ∀ x, t.Under x node → P x) : (PatternParts.addFrom t parts node defaults).All P := by
  refine h.addFromParts defaults fun x part => ?_
  obtain entered | ⟨rfl, intact⟩ := part
  · exact under x entered.under
  · exact self intact

/-- The parts of a pattern are the pattern itself or entered from it. -/
theorem all_ofNode_entered (t : Tree) (node : NodeId) :
    (ofNode t (some node)).All fun x => x = node ∨ t.Entered x node :=
  all_empty.addFromParts 0 fun _ part => part.symm.imp_left And.left

theorem exists_name_of_mem_targets {pattern : Child} {target : PatternTarget}
    (mem : target ∈ (ofNode t pattern).targets) :
    ∃ name, t.nodes.shape? target.identifier = some (.identifier name) := by
  cases pattern with
  | none => exact absurd mem (by simp [ofNode])
  | some node =>
    refine addFrom_induction (I := fun parts => ∀ target ∈ parts.targets,
      ∃ name, t.nodes.shape? target.identifier = some (.identifier name)) ?_ ?_ ?_ (by simp) 0
      target mem
    · intro parts x name defaults _ is h target mem
      obtain old | rfl := Array.mem_push.mp mem
      · exact h target old
      · exact ⟨name, is⟩
    · exact fun parts child _ h => h
    · exact fun parts child _ h => h

/-- The parts of a pattern are the pattern itself or under it. -/
theorem all_ofNode (t : Tree) (node : NodeId) : (ofNode t (some node)).All (t.Below · node) :=
  all_empty.addFrom 0 (fun _ => .refl node) fun _ => Tree.Under.below

/-- The parts of a pattern that is taken apart are under it. -/
theorem all_ofNode_of_isTakenApart {node : NodeId} {shape : Shape}
    (is : t.nodes.shape? node = some shape) (apart : shape.isTakenApart = true) :
    (ofNode t (some node)).All (t.Under · node) :=
  all_empty.addFrom 0 (fun intact => by simp [intact shape is] at apart) fun _ => id

end PatternParts

/-- The head of a name with dots is the name or entered from it. -/
theorem entered_entityHead {node head : NodeId} (is : entityHead t node = some head) :
    head = node ∨ t.Entered head node := by
  induction node using Nat.strongRecOn with
  | ind node ih =>
    rw [entityHead] at is
    split at is
    · rename_i left _ shape
      obtain ⟨part, rfl, rest⟩ := Option.bind_eq_some_iff.mp is
      have here : t.Entered part node := .slot shape (by simp [Shape.slots])
      split at rest
      · obtain rfl | entered := ih part ‹_› rest
        · exact .inr here
        · exact .inr (entered.trans here)
      · cases rest
    · exact .inl (Option.some.inj is).symm

theorem below_entityHead {node head : NodeId} (is : entityHead t node = some head) :
    t.Below head node := by
  obtain rfl | entered := entered_entityHead is
  · exact .refl _
  · exact entered.under.below

theorem under_entityHead {node head : NodeId} {left right : Child}
    (shape : t.nodes.shape? node = some (.qualifiedName left right))
    (is : entityHead t node = some head) : t.Under head node := by
  rw [entityHead, shape] at is
  obtain ⟨part, rfl, rest⟩ := Option.bind_eq_some_iff.mp is
  split at rest
  · exact (below_entityHead rest).under (.slot shape (by simp [Shape.slots]))
  · cases rest

end Scope
end LoopCapture
