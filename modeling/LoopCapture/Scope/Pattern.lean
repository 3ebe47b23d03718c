import LoopCapture.Syntax.Tree

/-! # The parts of a pattern

A pattern is taken apart into the identifiers it assigns, the expressions that are evaluated on the
way (defaults, computed keys, targets that are no names) and the types it carries.
-/

namespace LoopCapture.Scope
open Syntax (Child NodeId Shape Tree)

/-- An identifier that a pattern assigns, and how many defaults it stands under. -/
structure PatternTarget where
  identifier : NodeId
  defaults : Nat
deriving DecidableEq, Repr

/-- A pattern taken apart. -/
structure PatternParts where
  targets : Array PatternTarget := #[]
  evaluated : Array NodeId := #[]
  types : Array NodeId := #[]

namespace PatternParts

def evaluate (parts : PatternParts) (node : Child) : PatternParts :=
  { parts with evaluated := parts.evaluated ++ node.toArray }

def annotate (parts : PatternParts) (type : Child) : PatternParts :=
  { parts with types := parts.types ++ type.toArray }

/-- Adds the parts of a pattern under some defaults. The parts of a node precede it in the table. -/
def addFrom (t : Tree) (parts : PatternParts) (node : NodeId) (defaults : Nat) : PatternParts :=
  let into (parts : PatternParts) (part : Child) (defaults : Nat) : PatternParts :=
    match part with
    | some part => if part < node then addFrom t parts part defaults else parts
    | none => parts
  match t.nodes.shape? node with
  | none => parts
  | some (.identifier _) => { parts with targets := parts.targets.push ⟨node, defaults⟩ }
  | some (.objectPattern properties) =>
    properties.foldl (fun parts property =>
      match t.nodes.shape? property with
      | some (.property p) =>
        into (if p.computed then parts.evaluate p.key else parts) p.value defaults
      | _ => into parts property defaults) parts
  | some (.arrayPattern elements) =>
    elements.foldl (fun parts element => into parts element defaults) parts
  | some (.assignmentPattern left right) => (into parts left (defaults + 1)).evaluate right
  | some (.restElement argument) => into parts argument defaults
  | some (.parameter pattern _ type) => (into parts pattern defaults).annotate type
  | some (.nonNull expression) => into parts expression defaults
  | some (.typeCast expression type) => (into parts expression defaults).annotate type
  | some (.propertyName _) => parts
  | some _ => parts.evaluate node
termination_by node

def ofNode (t : Tree) (node : Child) : PatternParts :=
  node.elim {} fun node => addFrom t {} node 0

end PatternParts
end LoopCapture.Scope
