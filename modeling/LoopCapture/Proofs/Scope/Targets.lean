import LoopCapture.Proofs.Grammar.Composing.Statements
import LoopCapture.Proofs.Scope.Parts
import LoopCapture.Proofs.Syntax.Rooted

/-!
# The targets of a declaration

What a declaration binds is found in two ways: a walk takes its pattern apart and counts defaults,
and a loop over a stack looks for identifiers. On all patterns that a parse makes of declarations
they find the same, and the defaults are those on the one way down from the pattern.
-/

namespace LoopCapture.Syntax

theorem Shape.patternParts_subset_children (shape : Shape) :
    shape.patternParts ⊆ shape.children := by
  unfold patternParts
  split <;> simp [children, slots]

namespace NodeTable

variable {t : NodeTable} {held : List NodeId} {x y z : NodeId} {path path' : List NodeId}

/-- The node gives what stands in it a default. -/
def isDefault (t : NodeTable) (x : NodeId) : Bool :=
  match t.shape? x with
  | some (.assignmentPattern ..) => true
  | _ => false

/-- The nodes from one down to another, each of them a child of the one before. -/
inductive Way (t : NodeTable) (x : NodeId) : NodeId → List NodeId → Prop
  | here : Way t x x [x]
  | down {y z : NodeId} {path : List NodeId} (way : Way t x y path) (mem : z ∈ t.childrenOf y) :
    Way t x z (path ++ [z])

theorem Way.cons (way : t.Way y z path) (mem : y ∈ t.childrenOf x) : t.Way x z (x :: path) := by
  induction way with
  | here => exact .down .here mem
  | down _ mem' ih => exact .down ih mem'

theorem Way.le (precede : t.ChildrenPrecede) (way : t.Way x y path) : y ≤ x := by
  induction way with
  | here => exact Nat.le_refl x
  | down _ mem ih => exact Nat.le_trans (Nat.le_of_lt (precede _ _ mem)) ih

/-- A node has one parent at most, so there are no two ways to it. -/
theorem Way.unique (owned : t.Owned held) (way : t.Way x y path) (way' : t.Way x y path') :
    path = path' := by
  induction way generalizing path' with
  | here =>
    cases way' with
    | here => rfl
    | down back mem =>
      exact absurd (owned.precede _ _ mem) (Nat.not_lt.mpr (back.le owned.precede))
  | down way mem ih =>
    cases way' with
    | here => exact absurd (owned.precede _ _ mem) (Nat.not_lt.mpr (way.le owned.precede))
    | down way' mem' =>
      obtain rfl := owned.parent_unique mem mem'
      rw [ih way']

/-- A member of an object pattern is a property with a value, or something that is given a value. -/
theorem Declares.property_or_target (h : t.Declares .member x) :
    (∃ p, t.shape? x = some (.property p) ∧ ∀ y, p.value = some y → t.Declares .target y) ∨
      ((∀ p, t.shape? x ≠ some (.property p)) ∧ t.Declares .target x) := by
  cases h with
  | property is each => exact .inl ⟨_, is, each⟩
  | name is => exact .inr ⟨by simp [is], .name is⟩
  | word is => exact .inr ⟨by simp [is], .word is⟩
  | object is each => exact .inr ⟨by simp [is], .object is each⟩
  | array is each => exact .inr ⟨by simp [is], .array is each⟩
  | default is each => exact .inr ⟨by simp [is], .default is each⟩
  | rest is each => exact .inr ⟨by simp [is], .rest is each⟩
  | parameter is each => exact .inr ⟨by simp [is], .parameter is each⟩

end NodeTable

namespace Tree

variable {t : Tree} {x : NodeId}

/-- Where children precede, the identifiers of a pattern are those of its parts. -/
theorem patternIdentifiers_of_shape? (precede : t.nodes.ChildrenPrecede) {shape : Shape}
    (is : t.nodes.shape? x = some shape) (other : ∀ name, shape ≠ .identifier name) :
    t.patternIdentifiers x = shape.patternParts.flatMap t.patternIdentifiers := by
  have lt (part : NodeId) (mem : part ∈ shape.patternParts) : part < x :=
    precede x part (by
      simpa [NodeTable.childrenOf, is] using shape.patternParts_subset_children mem)
  rw [patternIdentifiers, is]
  split
  · exact absurd (Option.some.inj ‹_›) (other _)
  · rename_i same
    obtain rfl := Option.some.inj same
    exact List.flatMap_congr fun part mem => if_pos (lt part mem)
  · contradiction

/-- An identifier is noted down, and of a pattern the parts are visited next, the first one first.
-/
def visitPattern (t : Tree) (found : List NodeId) (node : NodeId) : List NodeId × List NodeId :=
  match t.nodes.shape? node with
  | none => (found, [])
  | some (.identifier _) => (found ++ [node], [])
  | some shape => (found, shape.patternParts)

theorem walksBy_visitPattern (precede : t.nodes.ChildrenPrecede) :
    WalksBy (fun found node => found ++ t.patternIdentifiers node) t.visitPattern
      fun _ => True where
  keeps _ _ _ := trivial
  lower found node _ next mem := by
    unfold visitPattern at mem
    split at mem
    · cases mem
    · cases mem
    · rename_i shape _ is
      exact precede node next
        (by simpa [NodeTable.childrenOf, is] using shape.patternParts_subset_children mem)
  walk_eq found node _ := by
    have collected (parts found : List NodeId) :
        parts.foldl (fun found node => found ++ t.patternIdentifiers node) found =
          found ++ parts.flatMap t.patternIdentifiers := by
      induction parts generalizing found with
      | nil => simp
      | cons part rest ih => rw [List.foldl_cons, ih, List.flatMap_cons, List.append_assoc]
    unfold visitPattern
    split
    · rename_i none
      rw [patternIdentifiers, none]
      simp
    · rename_i name is
      rw [patternIdentifiers, is]
      rfl
    · rename_i shape other is
      rw [collected, patternIdentifiers_of_shape? precede is fun name => other name]

/-- After some rounds all identifiers are noted down, in source order. -/
theorem exists_rounds_visitPattern (precede : t.nodes.ChildrenPrecede) (x : NodeId) :
    ∃ n, (visitTop t.visitPattern)^[n] ([], [x]) = (t.patternIdentifiers x, []) :=
  ((walksBy_visitPattern precede).exists_rounds [] x [] trivial).2

end Tree

end LoopCapture.Syntax

namespace LoopCapture.Scope
open Grammar
open Syntax (Child NodeId NodeTable Shape Tree visitTop)

variable {t : Tree} {x y : NodeId}

/-- The identifiers of a pattern that stands under some defaults, each with all the defaults that it
stands under. -/
def countedTargets (t : Tree) (node : NodeId) (defaults : Nat) : List PatternTarget :=
  match t.nodes.shape? node with
  | none => []
  | some (.identifier _) => [⟨node, defaults⟩]
  | some shape => shape.patternParts.flatMap fun part =>
      if part < node then countedTargets t part (defaults + [node].countP t.nodes.isDefault) else []
termination_by node

theorem countedTargets_of_shape? (precede : t.nodes.ChildrenPrecede) {shape : Shape}
    (is : t.nodes.shape? x = some shape) (other : ∀ name, shape ≠ .identifier name)
    (defaults : Nat) :
    countedTargets t x defaults = shape.patternParts.flatMap fun part =>
      countedTargets t part (defaults + [x].countP t.nodes.isDefault) := by
  have lt (part : NodeId) (mem : part ∈ shape.patternParts) : part < x :=
    precede x part
      (by simpa [NodeTable.childrenOf, is] using shape.patternParts_subset_children mem)
  rw [countedTargets, is]
  split
  · contradiction
  · exact absurd (Option.some.inj ‹_›) (other _)
  · rename_i same
    obtain rfl := Option.some.inj same
    exact List.flatMap_congr fun part mem => if_pos (lt part mem)

theorem map_identifier_countedTargets (precede : t.nodes.ChildrenPrecede) (x : NodeId)
    (defaults : Nat) :
    (countedTargets t x defaults).map (·.identifier) = t.patternIdentifiers x := by
  induction x using Nat.strongRecOn generalizing defaults with
  | ind x ih =>
    cases is : t.nodes.shape? x with
    | none => rw [countedTargets, Tree.patternIdentifiers, is]; rfl
    | some shape =>
      by_cases named : ∃ name, shape = .identifier name
      · obtain ⟨name, rfl⟩ := named
        rw [countedTargets, Tree.patternIdentifiers, is]
        rfl
      · have other (name : String) : shape ≠ .identifier name := fun same => named ⟨name, same⟩
        rw [countedTargets_of_shape? precede is other,
          Tree.patternIdentifiers_of_shape? precede is other, List.map_flatMap]
        refine List.flatMap_congr fun part mem => ih part (precede x part ?_) _
        simpa [NodeTable.childrenOf, is] using shape.patternParts_subset_children mem

/-- An identifier stands under the defaults on the way down to it. -/
theorem exists_way_of_mem_countedTargets (precede : t.nodes.ChildrenPrecede)
    {target : PatternTarget}
    {defaults : Nat} (mem : target ∈ countedTargets t x defaults) :
    ∃ path, t.nodes.Way x target.identifier path ∧
      target.defaults = defaults + path.countP t.nodes.isDefault := by
  induction x using Nat.strongRecOn generalizing defaults with
  | ind x ih =>
    cases is : t.nodes.shape? x with
    | none => simp [countedTargets, is] at mem
    | some shape =>
      by_cases named : ∃ name, shape = .identifier name
      · obtain ⟨name, rfl⟩ := named
        obtain rfl : target = ⟨x, defaults⟩ := by simpa [countedTargets, is] using mem
        exact ⟨[x], .here, by simp [NodeTable.isDefault, is]⟩
      · rw [countedTargets_of_shape? precede is fun name same => named ⟨name, same⟩] at mem
        obtain ⟨part, isPart, mem⟩ := List.mem_flatMap.mp mem
        have child : part ∈ t.nodes.childrenOf x := by
          simpa [NodeTable.childrenOf, is] using shape.patternParts_subset_children isPart
        obtain ⟨path, way, count⟩ := ih part (precede x part child) mem
        refine ⟨x :: path, way.cons child, ?_⟩
        rw [count, Nat.add_assoc, ← List.countP_append, List.singleton_append]

namespace PatternParts

variable {parts : PatternParts}

/-- Whatever was found before, the walk adds what is counted. -/
def Adds (t : Tree) (x : NodeId) : Prop :=
  ∀ parts defaults, (addFrom t parts x defaults).targets =
    parts.targets ++ (countedTargets t x defaults).toArray

theorem targets_foldl {α : Type} {l : List α} {add : PatternParts → α → PatternParts}
    {adds : α → List PatternTarget}
    (each : ∀ a ∈ l, ∀ parts, (add parts a).targets = parts.targets ++ (adds a).toArray)
    (parts : PatternParts) :
    (l.foldl add parts).targets = parts.targets ++ (l.flatMap adds).toArray := by
  induction l generalizing parts with
  | nil => simp
  | cons a l ih =>
    rw [List.foldl_cons, ih fun b mem => each b (List.mem_cons_of_mem a mem),
      each a List.mem_cons_self]
    simp

theorem adds_of_declares (precede : t.nodes.ChildrenPrecede) (h : t.nodes.Declares .target x) :
    Adds t x := by
  induction x using Nat.strongRecOn with
  | ind x ih =>
    have into (child : Child) (lower : ∀ y, child = some y → y < x)
        (targets : ∀ y, child = some y → t.nodes.Declares .target y) (parts : PatternParts)
        (defaults : Nat) :
        (parts.into t x child defaults).targets =
          parts.targets ++ (child.toList.flatMap (countedTargets t · defaults)).toArray := by
      cases child with
      | none => simp [PatternParts.into]
      | some y =>
        simp [PatternParts.into, lower y rfl, ih y (lower y rfl) (targets y rfl) parts defaults]
    have lower {shape : Shape} (is : t.nodes.shape? x = some shape) (y : NodeId)
        (slot : some y ∈ shape.slots) : y < x :=
      precede x y (by simpa [NodeTable.childrenOf, is, Shape.children] using slot)
    intro parts defaults
    cases h with
    | name is =>
      rw [addFrom, countedTargets, is]
      simp
    | word is =>
      rw [addFrom, countedTargets, is]
      simp [Shape.patternParts]
    | object is each =>
      have plain : [x].countP t.nodes.isDefault = 0 := by simp [NodeTable.isDefault, is]
      rw [addFrom, countedTargets_of_shape? precede is (by simp), is, plain]
      refine targets_foldl (fun member mem parts => ?_) parts
      have lt := lower is member (by simpa [Shape.slots] using mem)
      obtain ⟨p, prop, value⟩ | ⟨other, target⟩ := (each member mem).property_or_target
      · have before (y : NodeId) (same : p.value = some y) : y < x := by
          refine Nat.lt_trans (precede member y ?_) lt
          simp [NodeTable.childrenOf, prop, Shape.children, Shape.slots, same]
        have plain : [member].countP t.nodes.isDefault = 0 := by simp [NodeTable.isDefault, prop]
        rw [countedTargets_of_shape? precede prop (by simp), plain, prop]
        -- a computed key is evaluated and is no target
        have keyed : (if p.computed then parts.evaluate p.key else parts).targets =
            parts.targets := by
          split <;> rfl
        exact (into p.value before value _ defaults).trans (by rw [keyed]; rfl)
      · split
        · exact absurd ‹_› (other _)
        · exact (into (some member) (by simpa using lt) (by simpa using target) parts
            defaults).trans
            (by simp)
    | array is each =>
      have plain : [x].countP t.nodes.isDefault = 0 := by simp [NodeTable.isDefault, is]
      rw [addFrom, countedTargets_of_shape? precede is (by simp), is, plain]
      refine (targets_foldl (fun element mem parts => into element (fun y same => ?_)
        (fun y same => ?_) parts defaults) parts).trans ?_
      · exact lower is y (same ▸ mem)
      · exact each y (same ▸ mem)
      · simp [Shape.patternParts, List.filterMap_eq_flatMap_toList, List.flatMap_assoc]
    | default is each =>
      have one : [x].countP t.nodes.isDefault = 1 := by simp [NodeTable.isDefault, is]
      rw [addFrom, countedTargets_of_shape? precede is (by simp), is, one]
      exact into _ (fun y same => lower is y (by simp [Shape.slots, same])) each parts
        (defaults + 1)
    | rest is each | parameter is each =>
      have plain : [x].countP t.nodes.isDefault = 0 := by simp [NodeTable.isDefault, is]
      rw [addFrom, countedTargets_of_shape? precede is (by simp), is, plain]
      exact into _ (fun y same => lower is y (by simp [Shape.slots, same])) each parts defaults

end PatternParts

/-- Taking the pattern apart and looking for its identifiers find the same, one after the other, and
each identifier comes with the number of defaults on the one way down to it. -/
structure FindsAlike (t : Tree) (x : NodeId) : Prop where
  identifiers : (PatternParts.ofNode t (some x)).targets.toList.map (·.identifier) =
    t.patternIdentifiers x
  searched : ∃ rounds, (visitTop t.visitPattern)^[rounds] ([], [x]) = (t.patternIdentifiers x, [])
  reached : ∀ target ∈ (PatternParts.ofNode t (some x)).targets,
    ∃! path, t.nodes.Way x target.identifier path
  defaults : ∀ target ∈ (PatternParts.ofNode t (some x)).targets, ∀ path,
    t.nodes.Way x target.identifier path → target.defaults = path.countP t.nodes.isDefault

theorem findsAlike_of_declares {held : List NodeId} (owned : t.nodes.Owned held)
    (h : t.nodes.Declares .target x) : FindsAlike t x := by
  have precede : t.nodes.ChildrenPrecede := owned.precede
  have targets : (PatternParts.ofNode t (some x)).targets = (countedTargets t x 0).toArray := by
    simpa [PatternParts.ofNode] using PatternParts.adds_of_declares precede h {} 0
  refine ⟨?_, Tree.exists_rounds_visitPattern precede x, fun target mem => ?_,
    fun target mem path way => ?_⟩
  · rw [targets, List.toList_toArray, map_identifier_countedTargets precede]
  all_goals
    rw [targets, List.mem_toArray] at mem
    obtain ⟨path', way', count⟩ := exists_way_of_mem_countedTargets precede mem
  · exact ⟨path', way', fun path way => way.unique owned way'⟩
  · rw [way.unique owned way', count, Nat.zero_add]

/-- Whatever was parsed as a target of a declaration or as a parameter, the two ways to find what it
binds agree on it in the tree of the text. -/
theorem findsAlike_parseText {text : List Char} {p : Parse Child} {s : State}
    (makes : MakesTarget p)
    (retains : sourceFile.Retains (.ofText text) p s) (result : (p.run s).1 = some x) :
    FindsAlike (parseText text).tree x :=
  findsAlike_of_declares (owned_parseText text) (declares_parseText makes retains result)

def defaultsText : List Char := "var [[a = 0] = b];".toList

theorem findsAlike_defaults :
    MakesTarget (bindingTarget (parseUpTo 318)) ∧
      sourceFile.Retains (.ofText defaultsText) (bindingTarget (parseUpTo 318))
        (firstTarget defaultsText) ∧
      ((bindingTarget (parseUpTo 318)).run (firstTarget defaultsText)).1 = some 6 ∧
      FindsAlike (parseText defaultsText).tree 6 := by
  have word : (State.ofText defaultsText).advance.scanner.kind = .keyword .var_ := by decide +kernel
  have retains : sourceFile.Retains (.ofText defaultsText) (bindingTarget (parseUpTo 318))
      (firstTarget defaultsText) :=
    (retains_sourceFile word rfl).trans (.labelled (.self _ _))
  have result : ((bindingTarget (parseUpTo 318)).run (firstTarget defaultsText)).1 = some 6 := by
    decide +kernel
  exact ⟨.bindingTarget _, retains, result, findsAlike_parseText (.bindingTarget _) retains result⟩

end LoopCapture.Scope
