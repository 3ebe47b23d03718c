/-! # Forms of the log -/

namespace LoopCapture.Command

inductive LogFormat where
  | text
  | tree
  | json
deriving DecidableEq, Repr

/-- The form that a word names in any case; any other word stands for text. -/
def LogFormat.ofWord (word : String) : LogFormat :=
  match String.ofList (word.toList.map Char.toLower) with
  | "tree" => .tree
  | "json" => .json
  | _ => .text

end LoopCapture.Command
