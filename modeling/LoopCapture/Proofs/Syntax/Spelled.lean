import LoopCapture.Grammar.Parse
import LoopCapture.Proofs.Syntax.Owned
import LoopCapture.Proofs.Token.Value

/-!
# Names that span their spelling

The identifiers of a parsed text span the characters that they consist of. What a parse adds later
leaves them where they stand: no node becomes a name but those that are written as one. The one
exception is the local name of an import that is written as a string.
-/

namespace LoopCapture

namespace Syntax

/-- The node spans its name. -/
def Node.Spells (n : Node) (text : List Char) (name : String) : Prop :=
  Text.slice? n.start n.stop text = some name.toList

/-- The shape of a name that is written without a mark. -/
abbrev Shape.isBareName : Shape → Bool
  | .identifier _ | .propertyName _ => true
  | _ => false

/-- The shape of a name, or of a part of an import. -/
abbrev Shape.isNaming : Shape → Bool
  | .identifier _ | .propertyName _ | .importSpecifier .. | .literal .. => true
  | _ => false

/-- What the shape of a node may be changed to: the name of a property to that of a variable, and
other shapes only among each other. -/
inductive Shape.Becomes : Shape → Shape → Prop
  | same (shape : Shape) : Becomes shape shape
  | named (name : String) : Becomes (.propertyName name) (.identifier name)
  | other {old new : Shape} : old.isNaming = false → new.isNaming = false → Becomes old new

namespace Shape.Becomes

variable {old new middle : Shape} {name : String}

theorem trans (h : old.Becomes middle) (h' : middle.Becomes new) : old.Becomes new := by
  cases h with
  | same => exact h'
  | named name =>
    cases h' with
    | same => exact .named name
    | other is => cases is
  | other is is' =>
    cases h' with
    | same => exact .other is is'
    | named => cases is'
    | other _ is'' => exact .other is is''

/-- A variable was a name before. -/
theorem of_identifier (h : old.Becomes (.identifier name)) :
    old = .identifier name ∨ old = .propertyName name := by
  cases h with
  | same => exact .inl rfl
  | named => exact .inr rfl
  | other _ is => cases is

theorem of_propertyName (h : old.Becomes (.propertyName name)) : old = .propertyName name := by
  cases h with
  | same => rfl
  | other _ is => cases is

/-- Literals and parts of imports stay what they are. -/
theorem eq_of_isNaming (h : old.Becomes new) (is : old.isNaming = true)
    (other : ∀ name, old ≠ .propertyName name) : new = old := by
  cases h with
  | same => rfl
  | named name => exact absurd rfl (other name)
  | other is' => rw [is] at is'; cases is'

end Shape.Becomes

namespace NodeTable

/-- The second table goes on from the first one: its nodes stand where they stood, and none of them
is another name. -/
structure GoesOn (t t' : NodeTable) : Prop where
  size_le : t.size ≤ t'.size
  find : ∀ (id : NodeId) (n : Node), t[id]? = some n →
    ∃ n' : Node, t'[id]? = some n' ∧ n'.span = n.span ∧ n.shape.Becomes n'.shape

/-- The node is the local name of an import whose name is a string, and stands where the string
does. -/
def IsStringLocal (t : NodeTable) (id : NodeId) : Prop :=
  ∃ (specifier imported : NodeId) (typeOnly : Bool) (value : String) (n s : Node),
    t.shape? specifier = some (.importSpecifier .byName (some imported) (some id) typeOnly) ∧
      t[id]? = some n ∧ t[imported]? = some s ∧ n.span = s.span ∧ s.shape = .literal .string value

/-- Every name spans its spelling, but for the local name of an import that is written as a
string. -/
structure IsSpelled (text : List Char) (t : NodeTable) : Prop where
  names : ∀ (id : NodeId) (n : Node) (name : String), t[id]? = some n →
    n.shape = .propertyName name → n.Spells text name
  identifiers : ∀ (id : NodeId) (n : Node) (name : String), t[id]? = some n →
    n.shape = .identifier name → n.Spells text name ∨ t.IsStringLocal id

variable {text : List Char} {t t' t'' : NodeTable}

theorem GoesOn.refl (t : NodeTable) : t.GoesOn t :=
  ⟨Nat.le_refl _, fun _ n found => ⟨n, found, rfl, .same _⟩⟩

theorem GoesOn.trans (h : t.GoesOn t') (h' : t'.GoesOn t'') : t.GoesOn t'' where
  size_le := Nat.le_trans h.size_le h'.size_le
  find id n found := by
    obtain ⟨m, found, same, becomes⟩ := h.find id n found
    obtain ⟨o, found, same', becomes'⟩ := h'.find id m found
    exact ⟨o, found, same'.trans same, becomes.trans becomes'⟩

theorem goesOn_push (t : NodeTable) (n : Node) : t.GoesOn (t.push n) where
  size_le := by simp
  find id m found := by
    have lt := (Array.getElem?_eq_some_iff.mp found).1
    exact ⟨m, by rw [Array.getElem?_push_lt lt, ← Array.getElem?_eq_getElem lt, found], rfl,
      .same _⟩

/-- A local name written as a string stays one. -/
theorem IsStringLocal.goesOn {id : NodeId} (h : t.IsStringLocal id) (on : t.GoesOn t') :
    t'.IsStringLocal id := by
  obtain ⟨specifier, imported, typeOnly, value, n, s, is, found, found', same, literal⟩ := h
  obtain ⟨m, at_, shape⟩ := Option.map_eq_some_iff.mp is
  obtain ⟨m', at', -, becomes⟩ := on.find specifier m at_
  obtain ⟨n', here, span, -⟩ := on.find id n found
  obtain ⟨s', here', span', becomes'⟩ := on.find imported s found'
  refine ⟨specifier, imported, typeOnly, value, n', s', ?_, here, here',
    span.trans (same.trans span'.symm), ?_⟩
  · rw [shape?, at', Option.map_some, becomes.eq_of_isNaming (by rw [shape])
      (by simp [shape]), shape]
  · rw [becomes'.eq_of_isNaming (by rw [literal]) (by simp [literal]), literal]

/-- What goes back to the size of an earlier table goes on from it. -/
theorem GoesOn.shrink (on : t.GoesOn t') : t.GoesOn (t'.shrink t.size) where
  size_le := by simp [on.size_le]
  find id n found := by
    obtain ⟨n', found', same, becomes⟩ := on.find id n found
    have lt := (Array.getElem?_eq_some_iff.mp found).1
    exact ⟨n', by rw [Array.shrink_eq_take]; grind, same, becomes⟩

/-- A table without new nodes that goes on from one whose names are spelled. -/
theorem IsSpelled.goesOn (h : t.IsSpelled text) (on : t.GoesOn t') (size : t'.size = t.size) :
    t'.IsSpelled text := by
  have old {id : NodeId} {n' : Node} (found' : t'[id]? = some n') :
      ∃ n : Node, t[id]? = some n ∧ n'.span = n.span ∧ n.shape.Becomes n'.shape := by
    have lt : id < t.size := size ▸ (Array.getElem?_eq_some_iff.mp found').1
    obtain ⟨n'', is, rest⟩ := on.find id t[id] (Array.getElem?_eq_getElem lt)
    obtain rfl := Option.some.inj (is.symm.trans found')
    exact ⟨_, Array.getElem?_eq_getElem lt, rest⟩
  have spells {n n' : Node} {name : String} (same : n'.span = n.span) (h : n.Spells text name) :
      n'.Spells text name := by
    obtain ⟨start, stop⟩ := Text.Span.mk.inj same
    rwa [Node.Spells, start, stop]
  constructor
  · intro id n' name found' is
    obtain ⟨n, found, same, becomes⟩ := old found'
    exact spells same (h.names id n name found (is ▸ becomes).of_propertyName)
  · intro id n' name found' is
    obtain ⟨n, found, same, becomes⟩ := old found'
    obtain was | was := (is ▸ becomes).of_identifier
    · exact (h.identifiers id n name found was).imp (spells same) (·.goesOn on)
    · exact .inl (spells same (h.names id n name found was))

theorem IsSpelled.push (h : t.IsSpelled text) {n : Node}
    (spells : ∀ name, n.shape = .identifier name ∨ n.shape = .propertyName name →
      n.Spells text name) : IsSpelled text (t.push n) := by
  constructor
  · intro id m name found is
    rw [Array.getElem?_push] at found
    split at found
    · exact Option.some.inj found ▸ spells name (.inr (Option.some.inj found ▸ is))
    · exact h.names id m name found is
  · intro id m name found is
    rw [Array.getElem?_push] at found
    split at found
    · exact .inl (Option.some.inj found ▸ spells name (.inl (Option.some.inj found ▸ is)))
    · exact (h.identifiers id m name found is).imp_right (·.goesOn (goesOn_push t n))

/-- An import whose name is a string gets a local name that stands where the string does. -/
theorem IsSpelled.pushLocal (h : t.IsSpelled text) {imported : NodeId}
    {string target specifier : Node}
    {value name : String} {typeOnly : Bool} (found : t[imported]? = some string)
    (literal : string.shape = .literal .string value) (same : target.span = string.span)
    (isTarget : target.shape = .identifier name)
    (isSpecifier : specifier.shape =
      .importSpecifier .byName (some imported) (some t.size) typeOnly) :
    IsSpelled text ((t.push target).push specifier) := by
  have on := (goesOn_push t target).trans (goesOn_push (t.push target) specifier)
  have old {id : NodeId} {n : Node} (found : ((t.push target).push specifier)[id]? = some n) :
      n = specifier ∨ id = t.size ∧ n = target ∨ t[id]? = some n := by
    rw [Array.getElem?_push, Array.getElem?_push] at found
    split at found
    · exact .inl (Option.some.inj found).symm
    · split at found
      · exact .inr (.inl ⟨‹_›, (Option.some.inj found).symm⟩)
      · exact .inr (.inr found)
  constructor
  · intro id n name found is
    obtain rfl | ⟨-, rfl⟩ | found := old found
    · rw [isSpecifier] at is
      cases is
    · rw [isTarget] at is
      cases is
    · exact h.names id n name found is
  · intro id n name found' is
    obtain rfl | ⟨rfl, rfl⟩ | found' := old found'
    · rw [isSpecifier] at is
      cases is
    · obtain ⟨string', found'', span, becomes⟩ := on.find imported string found
      have here : ((t.push n).push specifier)[t.size + 1]? = some specifier := by
        rw [← Array.size_push n, Array.getElem?_push_size]
      refine .inr ⟨t.size + 1, imported, typeOnly, value, n, string', ?_, found', found'', ?_, ?_⟩
      · rw [shape?, here, Option.map_some, isSpecifier]
      · rw [same, span]
      · rw [becomes.eq_of_isNaming (by rw [literal]) (by simp [literal]), literal]
    · exact (h.identifiers id n name found' is).imp_right (·.goesOn on)

theorem goesOn_reshape (t : NodeTable) (node : NodeId) {shape : Shape}
    (becomes : ∀ old, t.shape? node = some old → old.Becomes shape) :
    t.GoesOn (t.reshape node shape) where
  size_le := by simp [reshape]
  find id n found := by
    by_cases here : node = id
    · subst here
      exact ⟨{ n with shape }, by simp [reshape, Array.getElem?_modify, found], rfl,
        becomes n.shape (by simp [shape?, found])⟩
    · exact ⟨n, by simp [reshape, Array.getElem?_modify, here, found], rfl, .same _⟩

theorem becomes_asPattern (shape : Shape) : shape.Becomes shape.asPattern.1 := by
  unfold Shape.asPattern
  split
  all_goals first
    | exact .same _
    | exact .other rfl rfl

/-- Turning literals into patterns makes no names. -/
theorem goesOn_asPattern (t : NodeTable) (node : NodeId) : t.GoesOn (t.asPattern node) := by
  refine asPattern_induction (fun s node shape h is => h.trans ?_) (.refl t) node
  exact goesOn_reshape s node fun old was =>
    Option.some.inj (is.symm.trans was) ▸ becomes_asPattern shape

end NodeTable
end Syntax
end LoopCapture
