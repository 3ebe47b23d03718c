/-! # Sets of code points as sorted ranges

A character property of the Unicode standard is a list of disjoint inclusive ranges in ascending
order. Membership stops at the first range that begins after the code point. Nothing is claimed
about lists that are not sorted.
-/

namespace LoopCapture.Text

/-- Inclusive ranges of code points, first and last of each. -/
abbrev Ranges := List (Nat × Nat)

/-- A code point is a member when one of the ranges spans it. -/
def Ranges.contains : Ranges → Nat → Bool
  | [], _ => false
  | (first, last) :: rest, c => first ≤ c && (c ≤ last || Ranges.contains rest c)

end LoopCapture.Text
