import LoopCapture.Text.Measure

/-! # Lines and columns

A line map lists where the lines of a text start. Positions are shown one-based, with columns in
UTF-16 units. A map may be asked about another text than its own; the column is then counted in
the text that is given.
-/

namespace LoopCapture.Text

/-- The starts of all lines, in ascending order. -/
structure LineMap where
  starts : List Offset
deriving DecidableEq, Repr

structure Place where
  line : Nat
  column : Nat
deriving DecidableEq, Repr

def lineStartsFrom : Offset → List Char → List Offset
  | _, [] => []
  | offset, c :: cs =>
    let next := offset + c.utf8Size
    if isLineBreak c && !(c == '\r' && cs.head? == some '\n') then
      next :: lineStartsFrom next cs
    else lineStartsFrom next cs

/-- The line map of a text. A carriage return before a line feed ends no line of its own. -/
def LineMap.ofText (source : List Char) : LineMap := ⟨0 :: lineStartsFrom 0 source⟩

/-- The index of the last line that starts at or before the offset. -/
def LineMap.lineIndex (map : LineMap) (offset : Offset) : Nat :=
  (map.starts.takeWhile (· ≤ offset)).length - 1

/-- The line and column of an offset; an offset past the end is taken to be the end. -/
def LineMap.place (map : LineMap) (source : List Char) (offset : Offset) : Place :=
  let line := map.lineIndex offset
  let stop := min offset (byteSize source)
  let start := min (map.starts.getD line 0) stop
  ⟨line + 1, ((slice? start stop source).elim 0 utf16Size) + 1⟩

end LoopCapture.Text
