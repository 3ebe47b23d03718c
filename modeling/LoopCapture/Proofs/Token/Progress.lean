import LoopCapture.Token.Lexeme
import LoopCapture.Token.Trivia

/-!
# Reading moves forward

Whatever is read at a cursor, the cursor after it stands later in the same text: between the two
there are whole characters, and the offsets differ by their bytes.
-/

namespace LoopCapture.Token
open Text (Offset byteSize)

namespace Cursor

/-- The later cursor is the earlier one after whole characters of its text. -/
def Before (c d : Cursor) : Prop :=
  ∃ passed, c.rest = passed ++ d.rest ∧ d.offset = c.offset + byteSize passed

namespace Before

variable {c d e : Cursor}

theorem refl (c : Cursor) : c.Before c := ⟨[], rfl, rfl⟩

theorem trans (h : c.Before d) (h' : d.Before e) : c.Before e := by
  obtain ⟨passed, rest, offset⟩ := h
  obtain ⟨more, rest', offset'⟩ := h'
  refine ⟨passed ++ more, by rw [rest, rest', List.append_assoc], ?_⟩
  rw [offset', offset, Text.byteSize_append, Nat.add_assoc]

theorem offset_le (h : c.Before d) : c.offset ≤ d.offset := by
  obtain ⟨passed, -, offset⟩ := h
  exact offset ▸ Nat.le_add_right _ _

/-- A cursor stands before the rest of its text after some characters. -/
theorem past (passed : List Char) {rest : List Char} {size : Nat} (stands : c.rest = passed ++ rest)
    (bytes : byteSize passed = size) : c.Before ⟨c.offset + size, rest⟩ :=
  ⟨passed, stands, bytes ▸ rfl⟩

theorem skip (passed : List Char) {offset size : Nat} {rest : List Char}
    (bytes : byteSize passed = size) : Before ⟨offset, passed ++ rest⟩ ⟨offset + size, rest⟩ :=
  past passed rfl bytes

theorem cons {offset : Offset} {x : Char} {cs : List Char}
    (h : Before ⟨offset + x.utf8Size, cs⟩ d) : Before ⟨offset, x :: cs⟩ d :=
  .trans (.skip [x] rfl) h

theorem byte {offset : Offset} {x : Char} {cs : List Char} (size : x.utf8Size = 1)
    (h : Before ⟨offset + 1, cs⟩ d) : Before ⟨offset, x :: cs⟩ d :=
  .cons (size.symm ▸ h)

end Before

/-- No cursor stands past the end of the text. -/
theorem offset_le_byteSize {text : List Char} {c : Cursor} (h : (ofText text).Before c) :
    c.offset ≤ byteSize text := by
  obtain ⟨passed, rest, offset⟩ := h
  change text = passed ++ c.rest at rest
  rw [offset, rest, Text.byteSize_append]
  simp [ofText]

theorem before_skipFrom (p : Char → Bool) (offset : Offset) (cs : List Char) :
    Before ⟨offset, cs⟩ (skipFrom p offset cs) := by
  induction cs generalizing offset with
  | nil => exact .refl _
  | cons x cs ih =>
    unfold skipFrom
    split
    · exact .cons (ih _)
    · exact .refl _

theorem before_skipFrom_cons {p : Char → Bool} {x : Char} (has : p x = true) (offset : Offset)
    (cs : List Char) : Before ⟨offset + x.utf8Size, cs⟩ (skipFrom p offset (x :: cs)) := by
  rw [skipFrom, if_pos has]
  exact before_skipFrom p _ cs

theorem before_skipWhile (p : Char → Bool) (c : Cursor) : c.Before (c.skipWhile p) :=
  before_skipFrom p c.offset c.rest

end Cursor

open Cursor (Before before_skipFrom before_skipWhile)

theorem before_commentEnd? {offset : Offset} {broken : Bool} {cs : List Char}
    {after : Cursor × Bool} (h : commentEnd? offset broken cs = some after) :
    Before ⟨offset, cs⟩ after.1 := by
  fun_induction commentEnd? offset broken cs with
  | case1 => simp at h
  | case2 offset broken cs =>
    obtain rfl := Option.some.inj h
    exact .skip ['*', '/'] rfl
  | case3 _ _ _ _ _ ih => exact .cons (ih h)

theorem before_skipTrivia (c : Cursor) (broken : Bool) :
    c.Before (skipTrivia c broken).cursor := by
  fun_induction skipTrivia c broken with
  | case1 c => exact .refl _
  | case2 c broken cs slashes ih =>
    exact .trans (.past ['/', '/'] slashes rfl) (.trans (before_skipFrom _ _ cs) ih)
  | case3 c broken cs opens after inside closes ih =>
    exact .trans (.past ['/', '*'] opens rfl) (.trans (before_commentEnd? closes) ih)
  | case4 c => exact before_skipWhile _ c
  | case5 c broken x cs _ _ stands _ ih => exact .trans (.past [x] stands rfl) ih
  | case6 c broken x cs _ _ stands _ isHash ih =>
    obtain rfl : x = '#' := by grind
    exact .trans (.past ['#'] stands rfl) (.trans (before_skipFrom _ _ _) ih)
  | case7 c broken x cs _ _ stands _ _ _ ih => exact .trans (.past [x] stands rfl) ih
  | case8 c => exact .refl _

theorem before_readString {quote : Char} (size : quote.utf8Size = 1) (reversed : List Char)
    (offset : Offset) (cs : List Char) :
    Before ⟨offset, cs⟩ (readString quote reversed offset cs).after := by
  fun_induction readString quote reversed offset cs with
  | case1 => exact .refl _
  | case2 => exact .byte rfl (.refl _)
  | case3 _ _ _ ih => exact .trans (.skip ['\\', '\r', '\n'] rfl) ih
  | case4 _ _ _ _ _ ih => exact .byte rfl (.cons ih)
  | case5 _ _ _ _ _ _ _ isQuote =>
    obtain rfl := eq_of_beq isQuote
    exact .byte size (.refl _)
  | case6 => exact .refl _
  | case7 _ _ _ _ _ _ _ _ _ ih => exact .cons ih

theorem before_readTemplate (reversed : List Char) (offset : Offset) (cs : List Char) :
    Before ⟨offset, cs⟩ (readTemplate reversed offset cs).2.1 := by
  fun_induction readTemplate reversed offset cs with
  | case1 => exact .refl _
  | case2 => exact .byte rfl (.refl _)
  | case3 => exact .skip ['$', '{'] rfl
  | case4 => exact .byte rfl (.refl _)
  | case5 _ _ _ _ ih => exact .byte rfl (.cons ih)
  | case6 _ _ _ _ _ _ _ _ ih => exact .cons ih

theorem before_readRegExp (inClass : Bool) (offset : Offset) (cs : List Char) :
    Before ⟨offset, cs⟩ (readRegExp inClass offset cs).1 := by
  fun_induction readRegExp inClass offset cs with
  | case1 => exact .refl _
  | case2 => exact .byte rfl (.refl _)
  | case3 => exact .byte rfl (.refl _)
  | case4 _ _ _ _ _ ih => exact .byte rfl (.cons ih)
  | case5 => exact .refl _
  | case6 _ _ x _ _ _ _ closes =>
    obtain rfl : x = '/' := by grind
    exact .byte rfl (.refl _)
  | case7 _ _ _ _ _ _ _ _ _ ih => exact .cons ih

theorem before_templateLexeme (fromBacktick : Bool) (c : Cursor) :
    c.Before (templateLexeme fromBacktick c).after :=
  before_readTemplate [] c.offset c.rest

theorem before_skipDigits (c : Cursor) : c.Before (skipDigits c) := before_skipWhile _ c

theorem before_skipExponent (c : Cursor) : c.Before (skipExponent c) := by
  unfold skipExponent
  split
  · rename_i e d cs stands
    split
    · rename_i isMark
      have size : e.utf8Size = 1 := by
        obtain rfl | rfl : e = 'e' ∨ e = 'E' := by simpa using isMark
        all_goals rfl
      have past : c.Before ⟨c.offset + 1, d :: cs⟩ := .past [e] stands (size ▸ rfl)
      split
      · exact past.trans (before_skipDigits _)
      · split
        · rename_i signed
          have size : d.utf8Size = 1 := by
            obtain rfl | rfl : d = '+' ∨ d = '-' := by grind
            all_goals rfl
          exact past.trans (.byte size (before_skipDigits _))
        · exact .refl _
    · exact .refl _
  · exact .refl _

/-- Past the first digit, or past the dot of a fraction without digits before it. -/
theorem before_skipNumber {c : Cursor} {x : Char} {cs : List Char} (stands : c.rest = x :: cs)
    (starts : x.isDigit ∨ x = '.') : Before ⟨c.offset + x.utf8Size, cs⟩ (skipNumber c) := by
  unfold skipNumber
  extract_lets whole decimal
  have isPast : Before ⟨c.offset + x.utf8Size, cs⟩ decimal := by
    refine .trans ?_ (before_skipExponent _)
    rcases starts with digit | rfl
    · have digits : Before ⟨c.offset + x.utf8Size, cs⟩ whole := by
        simp only [whole, skipDigits, Cursor.skipWhile, stands]
        exact Cursor.before_skipFrom_cons (by simp [digit]) _ _
      split
      · exact digits.trans (.trans (.past ['.'] ‹_› rfl) (before_skipDigits _))
      · exact digits
    · have noDigits : whole = c := by
        obtain ⟨offset, rest⟩ := c
        obtain rfl : rest = '.' :: cs := stands
        rfl
      simp only [noDigits, stands]
      exact before_skipDigits _
  clear_value decimal
  split
  · rename_i b rest here
    obtain ⟨rfl, rfl⟩ : '0' = x ∧ b :: rest = cs := by simpa [here] using stands
    split
    · rename_i isBase
      have size : b.utf8Size = 1 := by
        revert isBase
        simp only [List.mem_cons, List.not_mem_nil, or_false]
        rintro (rfl | rfl | rfl | rfl | rfl | rfl) <;> rfl
      exact .byte size (before_skipFrom _ _ rest)
    · exact isPast
  · exact isPast

theorem before_numberLexeme {c : Cursor} {x : Char} {cs : List Char} (stands : c.rest = x :: cs)
    (starts : x.isDigit ∨ x = '.') :
    Before ⟨c.offset + x.utf8Size, cs⟩ (numberLexeme c).after := by
  simp only [numberLexeme]
  split
  · exact (before_skipNumber stands starts).trans (.past ['n'] ‹_› rfl)
  · exact before_skipNumber stands starts

theorem before_regExpLexeme {c : Cursor} {cs : List Char} (stands : c.rest = '/' :: cs) :
    Before ⟨c.offset + 1, cs⟩ (regExpLexeme c).after := by
  have body := before_readRegExp false (c.offset + 1) (c.rest.drop 1)
  rw [stands] at body
  have body : Before ⟨c.offset + 1, cs⟩ (readRegExp false (c.offset + 1) (c.rest.drop 1)).1 := by
    simpa [stands] using before_readRegExp false (c.offset + 1) cs
  exact body.trans (before_skipWhile _ _)

namespace Punctuator

/-- A punctuator takes one byte for each of its characters. -/
theorem byteSize_spelling (mark : Punctuator) :
    byteSize mark.spelling.toList = mark.spelling.length := by
  cases mark <;> rfl

theorem length_spelling_pos (mark : Punctuator) : 0 < mark.spelling.length := by
  cases mark <;> decide

theorem eq_spelling_append_of_read? {cs rest : List Char} {mark : Punctuator}
    (h : read? cs = some (mark, rest)) : cs = mark.spelling.toList ++ rest := by
  unfold read? at h
  split at h
  all_goals first
    | cases h <;> rfl
    | split at h <;> cases h <;> rfl

/-- A greater-than sign and what extends it are written like the operator they form. -/
theorem cons_eq_spelling_append (cs : List Char) :
    '>' :: cs = (extendGreater cs).1.spelling.toList ++ (extendGreater cs).2 := by
  unfold extendGreater
  split <;> simp [spelling]

/-- An operator that extends a greater-than sign ends as far behind the start as it is long. -/
theorem offset_extendGreater {start stop : Offset} (cs : List Char)
    (behind : stop = start + greater.spelling.length) :
    stop + ((extendGreater cs).1.spelling.length - 1) =
      start + (extendGreater cs).1.spelling.length := by
  rw [behind, show greater.spelling.length = 1 from rfl, Nat.add_assoc,
    Nat.add_sub_cancel' (length_spelling_pos _)]

/-- A punctuator is read past the first character of the text. -/
theorem before_read? {offset : Offset} {x : Char} {cs rest : List Char} {mark : Punctuator}
    (h : read? (x :: cs) = some (mark, rest)) :
    Before ⟨offset + x.utf8Size, cs⟩ ⟨offset + mark.spelling.length, rest⟩ := by
  have written := eq_spelling_append_of_read? h
  have bytes := byteSize_spelling mark
  cases spelled : mark.spelling.toList with
  | nil =>
    have := length_spelling_pos mark
    rw [spelled, byteSize] at bytes
    omega
  | cons y passed =>
    rw [spelled] at written bytes
    obtain ⟨rfl, rfl⟩ : x = y ∧ cs = passed ++ rest := by simpa using written
    refine ⟨passed, rfl, ?_⟩
    rw [← bytes, byteSize, Nat.add_assoc]

end Punctuator

theorem before_lexeme {c : Cursor} {x : Char} {cs : List Char} (stands : c.rest = x :: cs) :
    Before ⟨c.offset + x.utf8Size, cs⟩ (lexeme c x cs).after := by
  unfold lexeme
  split
  · rename_i isQuote
    have size : x.utf8Size = 1 := by
      obtain rfl | rfl : x = '"' ∨ x = '\'' := by simpa using isQuote
      all_goals rfl
    simpa [stringLexeme, size] using before_readString size [] (c.offset + 1) cs
  split
  · rename_i isBacktick
    obtain rfl : x = '\x60' := by simpa using isBacktick
    exact before_templateLexeme true _
  split
  · exact before_numberLexeme stands (by grind)
  split
  · rename_i isHash
    obtain rfl : x = '#' := by grind
    exact before_skipWhile isNamePart ⟨c.offset + 1, cs⟩
  split
  · rename_i isStart
    have isPart : isNamePart x = true := by
      simp only [isNameStart, isNamePart, Bool.or_eq_true] at isStart ⊢
      grind
    simpa [wordLexeme, Cursor.skipWhile, stands] using
      Cursor.before_skipFrom_cons isPart c.offset cs
  split
  · exact Punctuator.before_read? ‹_›
  · exact .refl _

theorem read?_of_lexeme {c : Cursor} {x : Char} {cs : List Char} {mark : Punctuator}
    (is : (lexeme c x cs).kind = .punctuator mark) : ∃ rest,
    Punctuator.read? (x :: cs) = some (mark, rest) ∧
      (lexeme c x cs).after = ⟨c.offset + mark.spelling.length, rest⟩ := by
  have word (k : Option Keyword) : (k.map Kind.keyword).getD .identifier ≠ .punctuator mark := by
    cases k <;> simp
  have number : (numberLexeme c).kind ≠ .punctuator mark := by
    simp only [numberLexeme]
    split <;> simp
  revert is
  fun_cases lexeme c x cs with
  | case6 _ _ _ _ _ read rest reads =>
    intro is
    obtain rfl : read = mark := by simpa using is
    exact ⟨rest, reads, rfl⟩
  | _ => simp_all [stringLexeme, templateLexeme, wordLexeme]

theorem eq_spelling_append_of_lexeme {c : Cursor} {x : Char} {cs : List Char} {mark : Punctuator}
    (is : (lexeme c x cs).kind = .punctuator mark) :
    x :: cs = mark.spelling.toList ++ (lexeme c x cs).after.rest := by
  obtain ⟨rest, reads, after⟩ := read?_of_lexeme is
  rw [after]
  exact Punctuator.eq_spelling_append_of_read? reads

end LoopCapture.Token
