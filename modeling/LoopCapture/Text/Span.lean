import LoopCapture.Text.Measure

/-! # Spans of a text

A span is a half-open range of byte offsets. Its ends are not required to be in order.
-/

namespace LoopCapture.Text

/-- The bytes from `start` up to but not including `stop`. -/
structure Span where
  start : Offset
  stop : Offset
deriving DecidableEq, Repr, Inhabited

def Span.size (s : Span) : Nat := s.stop - s.start

/-- A span is empty when it ends where it starts or before. -/
def Span.isEmpty (s : Span) : Bool := s.stop ≤ s.start

/-- The other span lies inside this one and shares no endpoint with it. -/
def Span.strictlyContains (s other : Span) : Bool :=
  s.start < other.start && other.stop < s.stop

/-- The spanned text, empty when the span does not fit the text. -/
def Span.text (s : Span) (source : List Char) : List Char :=
  (slice? s.start s.stop source).getD []

end LoopCapture.Text
