/-! # Message templates

A template marks the place of its i-th argument by the number i in braces. Arguments are filled in
one after the other, each into the whole text so far, so a mark inside the text of an argument is
filled in by a later one.
-/

namespace LoopCapture.Diagnostic

/-- Every occurrence of the mark, left to right and not overlapping, gives way to the argument. -/
def fillMark (mark argument : List Char) : List Char → List Char
  | [] => []
  | c :: cs =>
    if mark.isPrefixOf (c :: cs) then
      argument ++ fillMark mark argument (cs.drop (mark.length - 1))
    else c :: fillMark mark argument cs
termination_by cs => cs.length
decreasing_by all_goals simp only [List.length_drop, List.length_cons]; omega

/-- The mark of the argument with the given number. -/
def argumentMark (number : Nat) : List Char := '{' :: (Nat.repr number).toList ++ ['}']

/-- Fills in the arguments from the given number on. -/
def fillFrom (number : Nat) : List String → List Char → List Char
  | [], text => text
  | argument :: rest, text =>
    fillFrom (number + 1) rest (fillMark (argumentMark number) argument.toList text)

def formatMessage (template : String) (arguments : List String) : String :=
  String.ofList (fillFrom 0 arguments template.toList)

end LoopCapture.Diagnostic
