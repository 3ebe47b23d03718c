import LoopCapture.Syntax.Shape
import LoopCapture.Text.Span

/-! # Tables of nodes

Nodes are appended as they are parsed and are named by their place. A literal that turns out to be
the target of an assignment becomes, where it stands, the pattern of the same spelling.
-/

namespace LoopCapture.Syntax
open Text (Offset Span)

structure Node where
  start : Offset
  stop : Offset
  shape : Shape
deriving Inhabited

def Node.span (n : Node) : Span := ⟨n.start, n.stop⟩

/-- The nodes of one text in the order of their creation. -/
abbrev NodeTable := Array Node

namespace NodeTable

def shape? (t : NodeTable) (id : NodeId) : Option Shape := t[id]?.map (·.shape)

def reshape (t : NodeTable) (id : NodeId) (shape : Shape) : NodeTable :=
  t.modify id fun n => { n with shape }

end NodeTable

/-- The pattern that a literal in an assignment's target stands for, and the nodes in it that are
targets in turn. -/
def Shape.asPattern : Shape → Shape × List NodeId
  | .array elements => (.arrayPattern elements, elements.filterMap id)
  | .object properties => (.objectPattern properties, properties)
  | .property p => (.property p, p.value.toList)
  | .spread argument => (.restElement argument, argument.toList)
  | .assignment (.punctuator .eq) left right => (.assignmentPattern left right, left.toList)
  | .assignmentPattern left right => (.assignmentPattern left right, left.toList)
  | shape => (shape, [])

/-- Turns a literal into a pattern, its nested targets included. Children precede their parents
in a table, so the targets of a node have smaller places. -/
def NodeTable.asPattern (t : NodeTable) (node : NodeId) : NodeTable :=
  match t.shape? node with
  | none => t
  | some shape =>
    let (pattern, targets) := shape.asPattern
    targets.foldl (fun t target => if target < node then asPattern t target else t)
      (t.reshape node pattern)
termination_by node

end LoopCapture.Syntax
