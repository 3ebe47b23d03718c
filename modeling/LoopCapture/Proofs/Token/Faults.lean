import LoopCapture.Proofs.Token.Standing

/-!
# Where the errors of a scanner stand

An error concerns whole characters of the text: a comment that is not closed is told at its two
opening characters, and every other error at the token that it was found in.
-/

namespace LoopCapture.Diagnostic
open Text (byteSize)

/-- The error concerns a part of the text: its start and its length are those of whole characters.
-/
def SyntaxError.StandsIn (text : List Char) (e : SyntaxError) : Prop :=
  ∃ before part after, text = before ++ part ++ after ∧ byteSize before = e.start ∧
    byteSize part = e.length

theorem SyntaxError.StandsIn.le {text : List Char} {e : SyntaxError} (h : e.StandsIn text) :
    e.start + e.length ≤ byteSize text := by
  obtain ⟨before, part, after, rfl, start, length⟩ := h
  rw [Text.byteSize_append, Text.byteSize_append, start, length]
  exact Nat.le_add_right _ _

end LoopCapture.Diagnostic

namespace LoopCapture.Token
open Text (byteSize)
open Diagnostic (SyntaxError)

variable {text : List Char}

/-- What lies between two cursors of a text is a part of it. -/
theorem Cursor.Before.standsIn {c d : Cursor} (h : (Cursor.ofText text).Before c) (h' : c.Before d)
    {e : SyntaxError} (start : e.start = c.offset) (stop : d.offset = e.start + e.length) :
    e.StandsIn text := by
  obtain ⟨before, rest, offset⟩ := h
  obtain ⟨part, rest', offset'⟩ := h'
  rw [rest'] at rest
  refine ⟨before, part, d.rest, ?_, ?_, ?_⟩
  · rw [List.append_assoc]
    exact rest
  · rw [start, offset]
    exact (Nat.zero_add _).symm
  · rw [← start, stop] at offset'
    exact (Nat.add_left_cancel offset').symm

/-- A comment that is not closed is told at the two characters that open it. -/
theorem exists_before_of_error_skipTrivia {c : Cursor} {broken : Bool} {e : SyntaxError}
    (is : (skipTrivia c broken).error = some e) :
    ∃ d cs, c.Before d ∧ d.rest = '/' :: '*' :: cs ∧ e = ⟨.tokenExpected "*/", d.offset, 2⟩ := by
  have on {c d : Cursor} (past : c.Before d)
      (h : ∃ d' cs, d.Before d' ∧ d'.rest = '/' :: '*' :: cs ∧
        e = ⟨.tokenExpected "*/", d'.offset, 2⟩) :
      ∃ d' cs, c.Before d' ∧ d'.rest = '/' :: '*' :: cs ∧
        e = ⟨.tokenExpected "*/", d'.offset, 2⟩ := by
    obtain ⟨d', cs, before, opens, told⟩ := h
    exact ⟨d', cs, past.trans before, opens, told⟩
  fun_induction skipTrivia c broken with
  | case1 | case8 => cases is
  | case2 c broken cs slashes ih =>
    exact on (.trans (.past ['/', '/'] slashes rfl) (Cursor.before_skipFrom _ _ cs)) (ih is)
  | case3 c broken cs opens after inside closes ih =>
    exact on (.trans (.past ['/', '*'] opens rfl) (before_commentEnd? closes)) (ih is)
  | case4 c broken cs opens =>
    exact ⟨c, cs, .refl c, opens, (Option.some.inj is).symm⟩
  | case5 c broken x cs _ _ stands _ ih | case7 c broken x cs _ _ stands _ _ _ ih =>
    exact on (.past [x] stands rfl) (ih is)
  | case6 c broken x cs _ _ stands _ isHash ih =>
    obtain rfl : x = '#' := by grind
    exact on (.trans (.past ['#'] stands rfl) (Cursor.before_skipFrom _ _ _)) (ih is)

namespace Scanner

variable {s : Scanner} {e : SyntaxError}

/-- The error concerns the current token. -/
structure IsTold (s : Scanner) (e : SyntaxError) : Prop where
  start : e.start = s.start.offset
  length : e.length = s.stop.offset - s.start.offset

theorem IsTold.standsIn (told : s.IsTold e) (start : (Cursor.ofText text).Before s.start)
    (stop : s.start.Before s.stop) : e.StandsIn text := by
  refine start.standsIn stop told.start ?_
  rw [told.start, told.length]
  exact (Nat.add_sub_cancel' stop.offset_le).symm

/-- The errors that a lexeme adds concern the token that it becomes. -/
theorem isTold_of_mem_become {start : Cursor} {l : Lexeme} (mem : e ∈ (s.become start l).errors) :
    e ∈ s.errors ∨ (s.become start l).IsTold e := by
  rw [become, note_eq_append, Array.mem_append] at mem
  rcases mem with old | new
  · exact .inl old
  · obtain ⟨fault, -, rfl⟩ := Option.map_eq_some_iff.mp (by simpa using new)
    exact .inr ⟨rfl, rfl⟩

/-- All errors that were met so far concern parts of the text. -/
def TellsOf (s : Scanner) (text : List Char) : Prop := ∀ e ∈ s.errors, e.StandsIn text

theorem TellsOf.scan (tells : s.TellsOf text) (before : (Cursor.ofText text).Before s.stop) :
    s.scan.TellsOf text := by
  intro e mem
  have stands := (standsIn_scan before).1
  have known : e ∈ note s.errors (skipTrivia s.stop false).error → e.StandsIn text := by
    rw [note_eq_append, Array.mem_append]
    rintro (old | new)
    · exact tells e old
    · obtain ⟨d, cs, past, opens, rfl⟩ := exists_before_of_error_skipTrivia (by simpa using new)
      exact (before.trans past).standsIn (.past ['/', '*'] opens rfl) rfl rfl
  have told : e ∈ note s.errors (skipTrivia s.stop false).error ∨ s.scan.IsTold e := by
    revert mem
    unfold Scanner.scan
    simp only
    split <;> exact isTold_of_mem_become
  exact told.elim known (·.standsIn stands.start stands.stop)

/-- The errors that are added when a token is read again concern that token. -/
theorem isTold_of_mem_apply (again : Grammar.Rereading) (mem : e ∈ (again.apply s).errors) :
    e ∈ s.errors ∨ (again.apply s).IsTold e := by
  revert mem
  cases again with
  | greater =>
    simp only [Grammar.Rereading.apply, rescanGreater]
    split <;> exact .inl
  | slash =>
    simp only [Grammar.Rereading.apply, rescanSlash]
    split
    · exact isTold_of_mem_become
    · exact .inl
  | template =>
    simp only [Grammar.Rereading.apply, rescanTemplate]
    split
    · exact isTold_of_mem_become
    · exact .inl

theorem TellsOf.reread (tells : s.TellsOf text) (stands : s.StandsIn text)
    (again : Grammar.Rereading) : (again.apply s).TellsOf text := by
  intro e mem
  have stands' := again.standsIn_apply stands
  rcases isTold_of_mem_apply again mem with old | told
  · exact tells e old
  · exact told.standsIn stands'.start stands'.stop

end Scanner
end LoopCapture.Token
