import LoopCapture.Capture.Program

/-! # Closures that end before their round does

A function that is called right where it is written has run to its end before the round of a loop
goes on, so it sees the values of its round. A function that may give up control resumes later, and
one that mentions its own name may hand itself out; neither of them is exempt.
-/

namespace LoopCapture.Capture
open Syntax (Child Function NodeId)

namespace Program

/-- A function has an identifier for its name, and a reference spelled like it passes through the
scope of the function. -/
def mentionsItself (p : Program) (closure : NodeId) (f : Function) : Bool :=
  match p.tree.shape? f.name with
  | some (.identifier own) =>
    (p.graph.nodeScope? (some closure)).any fun scope => (p.captures scope).any (·.name == own)
  | _ => false

/-- A function expression that is called where it is written and is over when the call returns. -/
def isExempt (p : Program) (closure : NodeId) : Bool :=
  (p.tree.function? (some closure)).any fun f =>
    !f.canSuspend && (f.form == .expression || f.form == .arrow) &&
      p.tree.isCallee (some closure) && !p.mentionsItself closure f

end Program
end LoopCapture.Capture
