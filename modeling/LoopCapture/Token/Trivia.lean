import LoopCapture.Diagnostic.SyntaxError
import LoopCapture.Text.Blank
import LoopCapture.Token.Cursor

/-! # What stands between tokens

White space, byte order marks, line terminators, comments of both kinds, and a hash-bang line at
the very start. A block comment that is never closed runs to the end of the text and is an error;
its line terminators do not count as line breaks.
-/

namespace LoopCapture.Token
open Text (Offset isLineBreak isBlank)
open Diagnostic (SyntaxError)

/-- The trivia read so far: where it ends, whether a line ended in it, what was wrong. -/
structure Trivia where
  cursor : Cursor
  lineBreak : Bool
  error : Option SyntaxError

/-- Past the end of a block comment, given the text after its opening, and whether a line ended
in it. -/
def commentEnd? : Offset → Bool → List Char → Option (Cursor × Bool)
  | _, _, [] => none
  | offset, broken, '*' :: '/' :: cs => some (⟨offset + 2, cs⟩, broken)
  | offset, broken, c :: cs => commentEnd? (offset + c.utf8Size) (broken || isLineBreak c) cs

/-- The text after a block comment is shorter than the text after its opening. -/
theorem length_lt_of_commentEnd? {offset : Offset} {broken : Bool} {cs : List Char}
    {after : Cursor × Bool} (h : commentEnd? offset broken cs = some after) :
    after.1.rest.length < cs.length := by
  fun_induction commentEnd? offset broken cs with
  | case1 => simp at h
  | case2 => simp only [Option.some.injEq] at h; subst h; simp only [List.length_cons]; omega
  | case3 _ _ _ _ _ ih => exact Nat.lt_succ_of_lt (ih h)

def skipTrivia (c : Cursor) (broken : Bool) : Trivia :=
  match _h : c.rest with
  | [] => ⟨c, broken, none⟩
  | '/' :: '/' :: cs => skipTrivia (Cursor.skipFrom (!isLineBreak ·) (c.offset + 2) cs) broken
  | '/' :: '*' :: cs =>
    match _e : commentEnd? (c.offset + 2) false cs with
    | some (after, inside) => skipTrivia after (broken || inside)
    | none => ⟨c.skipAll, broken, some ⟨.tokenExpected "*/", c.offset, 2⟩⟩
  | x :: cs =>
    if isLineBreak x then skipTrivia ⟨c.offset + x.utf8Size, cs⟩ true
    else if x == '#' && c.offset == 0 && cs.head? == some '!' then
      skipTrivia (Cursor.skipFrom (!isLineBreak ·) (c.offset + 1) cs) broken
    else if isBlank x || x == '\ufeff' then skipTrivia ⟨c.offset + x.utf8Size, cs⟩ broken
    else ⟨c, broken, none⟩
termination_by c.rest.length
decreasing_by
  · have := Cursor.length_skipFrom_le (!isLineBreak ·) (c.offset + 2) cs
    simp_all; omega
  · have := length_lt_of_commentEnd? _e
    simp_all; omega
  all_goals have := Cursor.length_skipFrom_le (!isLineBreak ·) (c.offset + 1) cs
  all_goals simp_all; try omega

end LoopCapture.Token
