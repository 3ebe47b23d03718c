import LoopCapture.Syntax.Table

/-! # Syntax trees

A tree is a node table with a root and the parent of every node below the root. Nodes that were
parsed and then left out of the tree have no parent.
-/

namespace LoopCapture.Syntax
open Text (Span)

/-- The nodes in which the identifiers of a pattern are, for a pattern that is not one itself. -/
def Shape.patternParts : Shape → List NodeId
  | .objectPattern properties => properties
  | .arrayPattern elements => elements.filterMap id
  | .property p => p.value.toList
  | .assignmentPattern left _ => left.toList
  | .restElement argument => argument.toList
  | .parameter pattern _ _ => pattern.toList
  | _ => []

/-- A table of nodes with its root and the links from children to parents. -/
structure Tree where
  nodes : NodeTable
  root : NodeId
  parents : Array Child

/-- How many links are followed when walking up from a node. -/
def parentWalkLimit : Nat := 10000

/-- Links the children of each node that is itself linked, from the given node downwards. -/
def linkFrom (t : NodeTable) (root : NodeId) : Nat → Array Child → Array Child
  | 0, parents => parents
  | node + 1, parents =>
    let linked := node == root || (parents[node]?.getD none).isSome
    let children := if linked then (t.shape? node).elim [] Shape.children else []
    linkFrom t root node
      (children.foldl (fun parents child => parents.setIfInBounds child (some node)) parents)

/-- The tree below a root. Children precede their parents in a table, so one pass from the root
downwards meets every linked node after its parent. -/
def Tree.ofTable (nodes : NodeTable) (root : NodeId) : Tree :=
  ⟨nodes, root, linkFrom nodes root (root + 1) (Array.replicate nodes.size none)⟩

namespace Tree

def shape? (t : Tree) (node : Child) : Option Shape := node.bind (t.nodes.shape? ·)

def parent (t : Tree) (node : NodeId) : Child := t.parents[node]?.getD none

def children (t : Tree) (node : NodeId) : List NodeId :=
  (t.nodes.shape? node).elim [] Shape.children

def span? (t : Tree) (node : Child) : Option Span := node.bind fun id => t.nodes[id]?.map (·.span)

/-- Where a node starts, zero when there is none. -/
def startOf (t : Tree) (node : NodeId) : Text.Offset := (t.nodes[node]?.map (·.start)).getD 0

/-- The name of a node's kind, empty when there is no node. -/
def kindName (t : Tree) (node : Child) : String := ((t.shape? node).map Shape.kindName).getD ""

def nameText? (t : Tree) (node : Child) : Option String := (t.shape? node).bind Shape.nameText?

def function? (t : Tree) (node : Child) : Option Function :=
  match t.shape? node with
  | some (.function f) => some f
  | _ => none

def isFunction (t : Tree) (node : Child) : Bool := (t.shape? node).any Shape.isFunction

theorem function?_eq_some_iff {t : Tree} {node : Child} {f : Function} :
    t.function? node = some f ↔ t.shape? node = some (.function f) := by
  unfold function?
  split <;> simp_all

theorem isFunction_of_function? {t : Tree} {node : Child} {f : Function}
    (h : t.function? node = some f) : t.isFunction node = true := by
  rw [isFunction, function?_eq_some_iff.mp h]
  rfl

def isLoop (t : Tree) (node : Child) : Bool := (t.shape? node).any Shape.isLoop

def declarationWord? (t : Tree) (node : Child) : Option DeclarationWord :=
  match t.shape? node with
  | some (.variableDeclaration word _) => some word
  | _ => none

def ancestorsUpTo (t : Tree) : Nat → Child → List NodeId
  | 0, _ => []
  | _ + 1, none => []
  | n + 1, some node => node :: ancestorsUpTo t n (t.parent node)

/-- The ancestors of a node, innermost first. -/
def ancestors (t : Tree) (node : Child) : List NodeId :=
  t.ancestorsUpTo parentWalkLimit (node.bind t.parent)

/-- The child is evaluated once before the loop and not on every round: the start of a `for`, or
what a `for`-`in` or `for`-`of` runs over. -/
def isHeadOnce (t : Tree) (loop child : Child) : Bool :=
  match t.shape? loop with
  | some (.forLoop init _ _ _) => init == child
  | some (.forIn _ right _ _) | some (.forOf _ right _ _) => right == child
  | _ => false

/-- The node is what the call that is its parent calls. -/
def isCallee (t : Tree) (node : Child) : Bool :=
  match t.shape? (node.bind t.parent) with
  | some (.call c) => c.callee == node
  | _ => false

def patternIdentifiers (t : Tree) (node : NodeId) : List NodeId :=
  match t.nodes.shape? node with
  | some (.identifier _) => [node]
  | some shape =>
    shape.patternParts.flatMap fun part => if part < node then patternIdentifiers t part else []
  | none => []
termination_by node

/-- A node and everything below it, parents first and children in source order. -/
def preorder (t : Tree) (node : NodeId) : List NodeId :=
  node :: (t.children node).flatMap fun child => if child < node then preorder t child else []
termination_by node

/-- All nodes in source order: by start, then the longer first, then as they were created. -/
def inSourceOrder (t : Tree) : List NodeId :=
  let key (id : NodeId) : Span := (t.span? (some id)).getD ⟨0, 0⟩
  (List.range t.nodes.size).mergeSort fun a b =>
    let (a, b) := (key a, key b)
    a.start < b.start || (a.start == b.start && a.stop ≥ b.stop)

end Tree
end LoopCapture.Syntax
