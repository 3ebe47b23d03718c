import LoopCapture.Grammar.State
import LoopCapture.Proofs.Token.Progress

/-!
# Where tokens stand

A scanner that has scanned stands on a token of its text. Every token but the end takes up room, the
next one starts no earlier than the current one stops, and reading a token again moves only its end.
Errors are only added.
-/

namespace LoopCapture.Token
open Text (byteSize)

/-- The current token stands in a text: it starts and stops there, in this order, takes at least one
character unless it is the end, and is written like it when it is a punctuator. -/
structure Scanner.StandsIn (text : List Char) (s : Scanner) : Prop where
  start : (Cursor.ofText text).Before s.start
  stop : s.start.Before s.stop
  proper : s.kind ≠ .endOfFile → s.start.offset < s.stop.offset
  written : ∀ mark, s.kind = .punctuator mark → s.start.rest = mark.spelling.toList ++ s.stop.rest

namespace Scanner

variable {text : List Char} {s : Scanner}

theorem note_eq_append (errors : Array Diagnostic.SyntaxError)
    (error : Option Diagnostic.SyntaxError) : note errors error = errors ++ error.toArray := by
  cases error <;> simp [note]

theorem StandsIn.start_le (h : s.StandsIn text) : s.start.offset ≤ byteSize text :=
  Cursor.offset_le_byteSize h.start

theorem StandsIn.stop_before (h : s.StandsIn text) : (Cursor.ofText text).Before s.stop :=
  h.start.trans h.stop

/-- The next token stands in the text, not before where the current one stops. -/
theorem standsIn_scan (h : (Cursor.ofText text).Before s.stop) :
    s.scan.StandsIn text ∧ s.stop.offset ≤ s.scan.start.offset := by
  have skips := before_skipTrivia s.stop false
  unfold scan
  simp only
  split
  · rename_i ends
    exact ⟨⟨h.trans skips, .refl _, by simp [become], by simp [become]⟩, skips.offset_le⟩
  · rename_i x cs stands
    have reads := before_lexeme stands
    refine ⟨⟨h.trans skips, (Cursor.Before.past [x] stands rfl).trans reads, fun _ => ?_,
      fun mark is => ?_⟩, skips.offset_le⟩
    · exact Nat.lt_of_lt_of_le (Nat.lt_add_of_pos_right x.utf8Size_pos) reads.offset_le
    · exact stands.trans (eq_spelling_append_of_lexeme is)

/-- The errors of the scanner are only added to. -/
theorem errors_scan (s : Scanner) : ∃ more, s.scan.errors = s.errors ++ more := by
  unfold scan
  simp only
  split <;> exact ⟨_, by simp [become, note_eq_append, Array.append_assoc]; rfl⟩

/-- Nothing but the end of the current token and its kind has changed, and errors were added. It is
still not the end of the text if it was not. -/
structure RereadFrom (s s' : Scanner) : Prop where
  start : s'.start = s.start
  notEnd : s.kind ≠ .endOfFile → s'.kind ≠ .endOfFile
  errors : ∃ more, s'.errors = s.errors ++ more

theorem RereadFrom.refl (s : Scanner) : s.RereadFrom s := ⟨rfl, id, #[], by simp⟩

/-- A lexeme that is read where the current token starts, past its first character. -/
theorem StandsIn.become (h : s.StandsIn text) {l : Lexeme} {x : Char} {cs : List Char}
    (stands : s.start.rest = x :: cs)
    (reads : Cursor.Before ⟨s.start.offset + x.utf8Size, cs⟩ l.after)
    (other : ∀ mark, l.kind ≠ .punctuator mark) : (s.become s.start l).StandsIn text where
  start := h.start
  stop := (Cursor.Before.past [x] stands rfl).trans reads
  proper _ := Nat.lt_of_lt_of_le (Nat.lt_add_of_pos_right x.utf8Size_pos) reads.offset_le
  written mark is := absurd is (other mark)

theorem rereadFrom_become (s : Scanner) {l : Lexeme} (proper : l.kind ≠ .endOfFile) :
    s.RereadFrom (s.become s.start l) :=
  ⟨rfl, fun _ => proper, _, note_eq_append _ _⟩

theorem StandsIn.offset_stop (h : s.StandsIn text) {mark : Punctuator}
    (is : s.kind = .punctuator mark) : s.stop.offset = s.start.offset + mark.spelling.length := by
  obtain ⟨passed, rest, offset⟩ := h.stop
  obtain rfl : passed = mark.spelling.toList :=
    List.append_cancel_right (rest.symm.trans (h.written mark is))
  rw [offset, Punctuator.byteSize_spelling]

theorem standsIn_rescanGreater (h : s.StandsIn text) : s.rescanGreater.StandsIn text := by
  unfold rescanGreater
  split
  · rename_i isGreater
    have written : s.start.rest = '>' :: s.stop.rest := h.written _ isGreater
    have longer := written.trans (Punctuator.cons_eq_spelling_append s.stop.rest)
    have offset := Punctuator.offset_extendGreater s.stop.rest (h.offset_stop isGreater)
    refine ⟨h.start, ?_, fun _ => ?_, fun mark is => ?_⟩
    · simp only [offset]
      exact .past _ longer (Punctuator.byteSize_spelling _)
    · simp only [offset]
      exact Nat.lt_add_of_pos_right (Punctuator.length_spelling_pos _)
    · obtain rfl := Kind.punctuator.inj is
      exact longer
  · exact h

theorem rereadFrom_rescanGreater (s : Scanner) : s.RereadFrom s.rescanGreater := by
  unfold rescanGreater
  split
  · exact ⟨rfl, by simp, #[], by simp⟩
  · exact .refl s

theorem standsIn_rescanSlash (h : s.StandsIn text) : s.rescanSlash.StandsIn text := by
  unfold rescanSlash
  split
  · rename_i isSlash
    obtain ⟨cs, stands⟩ : ∃ cs, s.start.rest = '/' :: cs := by
      rcases isSlash with is | is <;> exact ⟨_, h.written _ is⟩
    exact h.become stands (before_regExpLexeme stands) (by simp [regExpLexeme])
  · exact h

theorem rereadFrom_rescanSlash (s : Scanner) : s.RereadFrom s.rescanSlash := by
  unfold rescanSlash
  split
  · exact rereadFrom_become s (by simp [regExpLexeme])
  · exact .refl s

theorem standsIn_rescanTemplate (h : s.StandsIn text) : s.rescanTemplate.StandsIn text := by
  unfold rescanTemplate
  split
  · rename_i isBrace
    have stands : s.start.rest = '}' :: s.stop.rest := h.written _ isBrace
    refine h.become stands ?_ (by simp [templateLexeme])
    simp only [stands, List.drop_one, List.tail_cons]
    exact before_templateLexeme false _
  · exact h

theorem rereadFrom_rescanTemplate (s : Scanner) : s.RereadFrom s.rescanTemplate := by
  unfold rescanTemplate
  split
  · exact rereadFrom_become s (by simp [templateLexeme])
  · exact .refl s

/-- Going back to a scanner from one that has added errors to it gives that scanner. -/
theorem rewind_of_append {s saved : Scanner} {more : Array Diagnostic.SyntaxError}
    (h : s.errors = saved.errors ++ more) : s.rewind saved = saved := by
  simp [rewind, h]

end Scanner
end LoopCapture.Token

namespace LoopCapture.Grammar.Rereading
open Token (Scanner)

theorem standsIn_apply (again : Rereading) {text : List Char} {s : Scanner}
    (h : s.StandsIn text) : (again.apply s).StandsIn text := by
  cases again with
  | greater => exact Scanner.standsIn_rescanGreater h
  | slash => exact Scanner.standsIn_rescanSlash h
  | template => exact Scanner.standsIn_rescanTemplate h

theorem rereadFrom_apply (again : Rereading) (s : Scanner) : s.RereadFrom (again.apply s) := by
  cases again with
  | greater => exact Scanner.rereadFrom_rescanGreater s
  | slash => exact Scanner.rereadFrom_rescanSlash s
  | template => exact Scanner.rereadFrom_rescanTemplate s

end LoopCapture.Grammar.Rereading
