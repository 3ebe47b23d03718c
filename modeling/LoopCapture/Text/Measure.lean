/-! # Byte offsets into a text

A text is a list of characters and a place in it is the number of UTF-8 bytes before it. Cutting
at an offset succeeds only on a character boundary. Widths on screen are counted in UTF-16 units.
Offsets stand for numbers of 32 bits, so a text is meant to be shorter than 4 GiB; a natural number
goes on where such a number would overflow.
-/

namespace LoopCapture.Text

/-- A place in a text: the number of UTF-8 bytes before it. -/
abbrev Offset := Nat

def byteSize : List Char → Nat
  | [] => 0
  | c :: cs => c.utf8Size + byteSize cs

/-- A character beyond the basic plane takes two UTF-16 units. -/
def unitCount (c : Char) : Nat := if c.val < 0x10000 then 1 else 2

def utf16Size : List Char → Nat
  | [] => 0
  | c :: cs => unitCount c + utf16Size cs

/-- The text after the first `n` bytes, when they end on a character boundary. -/
def dropBytes? : Nat → List Char → Option (List Char)
  | 0, cs => some cs
  | _ + 1, [] => none
  | n + 1, c :: cs => if c.utf8Size ≤ n + 1 then dropBytes? (n + 1 - c.utf8Size) cs else none

/-- The first `n` bytes of a text, when they end on a character boundary. -/
def takeBytes? : Nat → List Char → Option (List Char)
  | 0, _ => some []
  | _ + 1, [] => none
  | n + 1, c :: cs =>
    if c.utf8Size ≤ n + 1 then (takeBytes? (n + 1 - c.utf8Size) cs).map (c :: ·) else none

def slice? (start stop : Offset) (text : List Char) : Option (List Char) :=
  if start ≤ stop then (dropBytes? start text).bind (takeBytes? (stop - start)) else none

theorem byteSize_append (a b : List Char) : byteSize (a ++ b) = byteSize a + byteSize b := by
  induction a with
  | nil => simp [byteSize]
  | cons c cs ih => simp [byteSize, ih, Nat.add_assoc]

/-- The four line terminators: line feed, carriage return and the two separators. -/
def isLineBreak (c : Char) : Bool :=
  c == '\n' || c == '\r' || c == '\u2028' || c == '\u2029'

end LoopCapture.Text
