import LoopCapture.Grammar.Expressions
import LoopCapture.Proofs.Token.Written

/-!
# Operations

An operation is a tree of binary operators over names. It is grown from the left, one operator and
its right operand after another, as long as the operators bind tighter than a level. What is grown
so reads from left to right as it was written, and is grouped by how tightly the operators bind.
-/

namespace LoopCapture.Grammar
open Token (Kind Name)
open Syntax (Child NodeId NodeTable Shape)

/-- A name that is no keyword, not even a contextual one. -/
structure PlainName where
  name : Name
  plain : name.kind = .identifier

/-- A binary operator, other than the casts `as` and `satisfies`. -/
structure Operator where
  kind : Kind
  binds : 0 < precedence false kind
  noCast : kind ≠ .keyword .as_ ∧ kind ≠ .keyword .satisfies_

namespace Operator

/-- How tightly an operator binds. -/
def level (o : Operator) : Nat := precedence false o.kind

def IsPower (o : Operator) : Prop := o.kind = .punctuator .starStar

instance (o : Operator) : Decidable o.IsPower := inferInstanceAs (Decidable (o.kind = _))

/-- The operators of a right operand bind tighter than this level. -/
def floor (o : Operator) : Nat := if o.IsPower then o.level - 1 else o.level

def shape (o : Operator) (left right : Child) : Shape :=
  if o.kind = .punctuator .barBar ∨ o.kind = .punctuator .ampAmp ∨
      o.kind = .punctuator .questionQuestion then .logical o.kind left right
  else .binary o.kind left right

/-- The tokens that are operators. -/
def kinds : List Kind :=
  [.punctuator .questionQuestion, .punctuator .barBar, .punctuator .ampAmp, .punctuator .bar,
    .punctuator .caret, .punctuator .amp, .punctuator .eqEq, .punctuator .bangEq,
    .punctuator .eqEqEq, .punctuator .bangEqEq, .keyword .in_, .keyword .instanceof_,
    .punctuator .less, .punctuator .greater, .punctuator .lessEq, .punctuator .greaterEq,
    .punctuator .shiftLeft, .punctuator .shiftRight, .punctuator .shiftRightUnsigned,
    .punctuator .plus, .punctuator .minus, .punctuator .star, .punctuator .slash,
    .punctuator .percent, .punctuator .starStar]

theorem kind_mem_kinds (o : Operator) : o.kind ∈ kinds := by
  obtain ⟨kind, binds, noCast⟩ := o
  cases kind with
  | punctuator mark => cases mark <;> first | exact absurd binds (Nat.lt_irrefl 0) | simp [kinds]
  | keyword word =>
    cases word with
    | in_ | instanceof_ => simp [kinds]
    | as_ => exact absurd rfl noCast.1
    | satisfies_ => exact absurd rfl noCast.2
    | _ => exact absurd binds (Nat.lt_irrefl 0)
  | _ => exact absurd binds (Nat.lt_irrefl 0)

theorem level_eq_of_isPower {o : Operator} (h : o.IsPower) : o.level = 11 := by
  rw [level, show o.kind = .punctuator .starStar from h]
  rfl

theorem floor_le_level (o : Operator) : o.floor ≤ o.level := by
  unfold floor
  split
  · exact Nat.sub_le _ _
  · exact Nat.le_refl _

/-- No operator binds tighter than the power operator, and no other one as tightly. -/
theorem floor_lt (o : Operator) : o.floor < 11 := by
  have below : ∀ k ∈ kinds, k ≠ .punctuator .starStar → precedence false k < 11 := by decide
  unfold floor
  split
  · rename_i isPower
    rw [level_eq_of_isPower isPower]
    decide
  · rename_i other
    exact below o.kind o.kind_mem_kinds other

/-- What binds tighter than the floor of an operator may be its right operand. -/
theorem binds_of_floor_lt {o o' : Operator} (h : o.floor < o'.level) :
    if o.IsPower then o.level ≤ o'.level else o.level < o'.level := by
  unfold floor at h
  split at h
  · rename_i isPower
    rw [if_pos isPower]
    exact Nat.le_of_pred_lt h
  · rename_i other
    rwa [if_neg other]

/-- An operator that stopped the right operand of another one may take that one as its left
operand. -/
theorem binds_of_le_floor {o o' : Operator} (h : o.level ≤ o'.floor) :
    if o.IsPower then o.level < o'.level else o.level ≤ o'.level := by
  split
  · rename_i isPower
    have lt := o'.floor_lt
    rw [level_eq_of_isPower isPower] at h
    exact absurd lt (Nat.not_lt.mpr h)
  · exact Nat.le_trans h o'.floor_le_level

end Operator

/-- Operators with the names that follow them. -/
abbrev Operands := List (Operator × PlainName)

/-- A tree of binary operators over names. -/
inductive Operation where
  | name (x : PlainName)
  | apply (o : Operator) (left right : Operation)

def Operands.items (operands : Operands) : List (PlainName ⊕ Operator) :=
  operands.flatMap fun (o, x) => [.inr o, .inl x]

namespace Operation

def reading : Operation → List (PlainName ⊕ Operator)
  | .name x => [.inl x]
  | .apply o left right => left.reading ++ .inr o :: right.reading

/-- The operator that is applied last. -/
def operator? : Operation → Option Operator
  | .name _ => none
  | .apply o _ _ => some o

/-- Operands bind tighter than their operators. On the left they may bind as tightly, but for the
power operator it is so on the right. -/
def IsGrouped : Operation → Prop
  | .name _ => True
  | .apply o left right => left.IsGrouped ∧ right.IsGrouped ∧
    (∀ o' ∈ left.operator?, if o.IsPower then o.level < o'.level else o.level ≤ o'.level) ∧
    ∀ o' ∈ right.operator?, if o.IsPower then o.level ≤ o'.level else o.level < o'.level

/-- A node stands for an operation. -/
def IsAt (t : NodeTable) : Operation → NodeId → Prop
  | .name x, id => t.shape? id = some (.identifier x.name.value)
  | .apply o left right, id => ∃ l r : NodeId, t.shape? id = some (o.shape l r) ∧
    left.IsAt t l ∧ right.IsAt t r

end Operation

theorem shape?_push_size (t : NodeTable) (n : Syntax.Node) :
    NodeTable.shape? (t.push n) t.size = some n.shape := by
  simp [NodeTable.shape?]

def Keeps (t t' : NodeTable) : Prop :=
  ∀ id shape, t.shape? id = some shape → t'.shape? id = some shape

namespace Keeps

variable {t t' t'' : NodeTable}

theorem refl (t : NodeTable) : Keeps t t := fun _ _ found => found

theorem trans (h : Keeps t t') (h' : Keeps t' t'') : Keeps t t'' :=
  fun id shape found => h' id shape (h id shape found)

theorem push (t : NodeTable) (n : Syntax.Node) : Keeps t (t.push n) := by
  intro id shape found
  obtain ⟨m, there, rfl⟩ := Option.map_eq_some_iff.mp found
  have lt := (Array.getElem?_eq_some_iff.mp there).1
  rw [NodeTable.shape?, Array.getElem?_push_lt lt, ← Array.getElem?_eq_getElem lt, there]
  rfl

/-- A node stands for an operation still when others are added. -/
theorem isAt (h : Keeps t t') {e : Operation} {id : NodeId} (isAt : e.IsAt t id) :
    e.IsAt t' id := by
  induction e generalizing id with
  | name x => exact h id _ isAt
  | apply o left right ihl ihr =>
    obtain ⟨l, r, found, atLeft, atRight⟩ := isAt
    exact ⟨l, r, h id _ found, ihl atLeft, ihr atRight⟩

end Keeps

/-- An operation grows by the operators that bind tighter than a level, up to the first that does
not. What an operator takes to its right grows before it does. -/
inductive Climbs : Nat → Operation → Operands → Operation → Operands → Prop where
  | stop {above : Nat} {left : Operation} {operands : Operands} :
    (∀ next ∈ operands.head?, next.1.level ≤ above) → Climbs above left operands left operands
  | step {above : Nat} {left right e : Operation} {o : Operator} {x : PlainName}
    {operands between rest : Operands} :
    above < o.level → Climbs o.floor (.name x) operands right between →
    Climbs above (.apply o left right) between e rest →
    Climbs above left ((o, x) :: operands) e rest

namespace Climbs

variable {above : Nat} {left e : Operation} {operands rest : Operands}

theorem length_le (h : Climbs above left operands e rest) : rest.length ≤ operands.length := by
  induction h with
  | stop => exact Nat.le_refl _
  | step _ _ _ inner outer => exact Nat.le_succ_of_le (Nat.le_trans outer inner)

theorem exists_climbs (above : Nat) (left : Operation) (operands : Operands) :
    ∃ e rest, Climbs above left operands e rest := by
  induction length : operands.length using Nat.strongRecOn generalizing above left operands with
  | ind n ih =>
    cases operands with
    | nil => exact ⟨left, [], .stop (by simp)⟩
    | cons next operands =>
      obtain ⟨o, x⟩ := next
      subst length
      by_cases tighter : above < o.level
      · obtain ⟨right, between, inner⟩ :=
          ih operands.length (Nat.lt_succ_self _) o.floor (.name x) operands rfl
        obtain ⟨e, rest, outer⟩ := ih between.length (Nat.lt_succ_of_le inner.length_le) above
          (.apply o left right) between rfl
        exact ⟨e, rest, .step tighter inner outer⟩
      · exact ⟨left, _, .stop (by simpa using tighter)⟩

/-- An operator that is left over does not bind tighter than the level. -/
theorem level_le (h : Climbs above left operands e rest) :
    ∀ next ∈ rest.head?, next.1.level ≤ above := by
  induction h with
  | stop ends => exact ends
  | step _ _ _ _ outer => exact outer

theorem reading_append (h : Climbs above left operands e rest) :
    e.reading ++ rest.items = left.reading ++ operands.items := by
  induction h with
  | stop => rfl
  | step _ _ _ inner outer =>
    rw [outer, Operation.reading, List.append_assoc, List.cons_append, inner]
    simp [Operation.reading, Operands.items]

/-- What is grown binds tighter than the level. -/
theorem lt_level (h : Climbs above left operands e rest)
    (binds : ∀ o ∈ left.operator?, above < o.level) : ∀ o ∈ e.operator?, above < o.level := by
  induction h with
  | stop => exact binds
  | step tighter _ _ _ outer =>
    refine outer fun o mem => ?_
    obtain rfl := Option.some.inj mem
    exact tighter

theorem isGrouped (h : Climbs above left operands e rest) (grouped : left.IsGrouped)
    (closed : ∀ o ∈ left.operator?, ∀ next ∈ operands.head?, next.1.level ≤ o.floor) :
    e.IsGrouped := by
  induction h with
  | stop => exact grouped
  | @step above left right e o x operands between rest tighter first _ inner outer =>
    refine outer ⟨grouped, inner trivial (by simp [Operation.operator?]), ?_, ?_⟩ ?_
    · intro o' mem
      exact Operator.binds_of_le_floor (closed o' mem (o, x) rfl)
    · intro o' mem
      exact Operator.binds_of_floor_lt (first.lt_level (by simp [Operation.operator?]) o' mem)
    · intro o' mem next mem'
      obtain rfl := Option.some.inj mem
      exact first.level_le next mem'

theorem rest_eq_nil (h : Climbs 0 left operands e rest) : rest = [] := by
  have loose := h.level_le
  cases rest with
  | nil => rfl
  | cons next rest => exact absurd next.1.binds (Nat.not_lt.mpr (loose next rfl))

end Climbs
end LoopCapture.Grammar
