/-! # Pieces of globs

A glob is a list of pieces. Two stars between slashes stand for any number of directories, and how
they are read depends on where they are: in front, behind, or in between.
-/

namespace LoopCapture.Glob

inductive Piece where
  | literal (c : Char)
  | any
  /-- Any bytes, slashes among them. -/
  | star
  /-- Any directories in front of a path. -/
  | leading
  /-- A slash and anything below. -/
  | trailing
  /-- A slash, or any directories between two slashes. -/
  | between
  | oneOf (isNegated : Bool) (ranges : List (Char × Char))
  | alternatives (branches : List (List Piece))
deriving Repr, Inhabited

inductive Fault where
  | unclosedClass
  | invalidRange (first last : Char)
  | unopenedGroup
  | unclosedGroup
  | danglingEscape
deriving DecidableEq, Repr

def Fault.text : Fault → String
  | .unclosedClass => "unclosed character class; missing ']'"
  | .invalidRange first last => s!"invalid range; '{first}' > '{last}'"
  | .unopenedGroup =>
    "unopened alternate group; missing '\x7b' (maybe escape '\x7d' with '[\x7d]'?)"
  | .unclosedGroup =>
    "unclosed alternate group; missing '\x7d' (maybe escape '\x7b' with '[\x7b]'?)"
  | .danglingEscape => "dangling '\\'"

end LoopCapture.Glob
