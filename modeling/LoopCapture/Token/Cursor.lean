import LoopCapture.Text.Measure

/-! # Cursors

A cursor is a place in a text together with the text after it. Reading moves it past whole
characters.
-/

namespace LoopCapture.Token
open Text (Offset)

/-- A place and what follows it. -/
structure Cursor where
  offset : Offset
  rest : List Char
deriving Inhabited

namespace Cursor

def ofText (text : List Char) : Cursor := ⟨0, text⟩

def skipFrom (p : Char → Bool) : Offset → List Char → Cursor
  | offset, [] => ⟨offset, []⟩
  | offset, c :: cs => if p c then skipFrom p (offset + c.utf8Size) cs else ⟨offset, c :: cs⟩

def skipWhile (p : Char → Bool) (c : Cursor) : Cursor := skipFrom p c.offset c.rest

/-- Past everything. -/
def skipAll (c : Cursor) : Cursor := c.skipWhile fun _ => true

def textTo (c d : Cursor) : List Char :=
  (Text.takeBytes? (d.offset - c.offset) c.rest).getD []

theorem length_skipFrom_le (p : Char → Bool) (offset : Offset) (cs : List Char) :
    (skipFrom p offset cs).rest.length ≤ cs.length := by
  induction cs generalizing offset with
  | nil => simp [skipFrom]
  | cons c cs ih =>
    unfold skipFrom
    split
    · exact Nat.le_succ_of_le (ih _)
    · simp

end Cursor
end LoopCapture.Token
