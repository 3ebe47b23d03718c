import LoopCapture.Proofs.Token.Value

/-!
# Scanning loses nothing and ends

The tokens of a text stand in it one after the other, each takes up room, and there are no more of
them than characters. What stands between them is white space, line terminators and comments, each
of which is told apart here from how it is written. After the last token the scanner stays at the
end of the text.
-/

namespace LoopCapture.Token
open Text (Offset byteSize dropBytes? isBlank isLineBreak)

/-- A piece of what stands between tokens. -/
inductive Filler where
  /-- White space that is no line terminator, or a byte order mark. -/
  | blank (c : Char)
  | terminator (c : Char)
  | lineComment (body : List Char)
  | blockComment (body : List Char)
  | openComment (body : List Char)
  | hashBang (body : List Char)

namespace Filler

def text : Filler → List Char
  | .blank c | .terminator c => [c]
  | .lineComment body => '/' :: '/' :: body
  | .blockComment body => '/' :: '*' :: body ++ ['*', '/']
  | .openComment body => '/' :: '*' :: body
  | .hashBang body => '#' :: '!' :: body

theorem byteSize_lineComment (body : List Char) :
    byteSize (lineComment body).text = 2 + byteSize body :=
  (Nat.add_assoc 1 1 _).symm

theorem byteSize_openComment (body : List Char) :
    byteSize (openComment body).text = 2 + byteSize body :=
  (Nat.add_assoc 1 1 _).symm

theorem byteSize_hashBang (body : List Char) :
    byteSize (hashBang body).text = 2 + byteSize body :=
  (Nat.add_assoc 1 1 _).symm

theorem byteSize_blockComment (body : List Char) :
    byteSize (blockComment body).text = 2 + (byteSize body + 2) := by
  change byteSize ((openComment body).text ++ ['*', '/']) = _
  rw [Text.byteSize_append, byteSize_openComment, Nat.add_assoc]
  rfl

/-- The text is the rest of a line. -/
def IsRestOfLine (body after : List Char) : Prop :=
  (∀ c ∈ body, isLineBreak c = false) ∧ ∀ c ∈ after.head?, isLineBreak c = true

/-- A piece may stand at a place, before a text. A hash-bang line stands at the start alone. -/
def StandsAt (offset : Offset) (after : List Char) : Filler → Prop
  | .blank c => isLineBreak c = false ∧ (isBlank c = true ∨ c = '\ufeff')
  | .terminator c => isLineBreak c = true
  | .lineComment body => IsRestOfLine body after
  | .blockComment body => ¬ ['*', '/'] <:+: body
  | .openComment body => ¬ ['*', '/'] <:+: body ∧ after = []
  | .hashBang body => offset = 0 ∧ IsRestOfLine body after

/-- A line ends in a piece, unless the piece is a block comment that is never closed. -/
def breaksLine : Filler → Bool
  | .openComment _ => false
  | piece => piece.text.any isLineBreak

end Filler

/-- The pieces fill the text between two cursors. -/
inductive Fills : Cursor → List Filler → Cursor → Prop where
  | nil (c : Cursor) : Fills c [] c
  | cons {c d e : Cursor} {piece : Filler} {pieces : List Filler} :
    c.rest = piece.text ++ d.rest → d.offset = c.offset + byteSize piece.text →
    piece.StandsAt c.offset d.rest → Fills d pieces e → Fills c (piece :: pieces) e

def InFiller (text : List Char) (offset : Offset) : Prop :=
  ∃ before piece after, text = before ++ (Filler.text piece ++ after) ∧
    piece.StandsAt (byteSize before) after ∧ byteSize before ≤ offset ∧
    offset < byteSize before + byteSize piece.text

def Scanner.nth (text : List Char) : Nat → Scanner
  | 0 => .ofText text
  | n + 1 => (nth text n).scan

open Scanner (nth)

/-- The place in the text belongs to a token. -/
def InToken (text : List Char) (offset : Offset) : Prop :=
  ∃ n, 0 < n ∧ (nth text n).start.offset ≤ offset ∧ offset < (nth text n).stop.offset

/-- Scanning a text again and again comes to its end and loses nothing on the way. -/
structure ScansAll (text : List Char) : Prop where
  ends : ∃ n, 0 < n ∧ n ≤ text.length + 1 ∧ (nth text n).kind = .endOfFile
  stays : ∀ n, (nth text n).kind = .endOfFile →
    (nth text n).start.offset = byteSize text ∧ (nth text n).stop.offset = byteSize text ∧
      (nth text (n + 1)).kind = .endOfFile
  located : ∀ n, dropBytes? (nth text n).start.offset text = some (nth text n).start.rest ∧
    dropBytes? (nth text n).stop.offset text = some (nth text n).stop.rest
  proper : ∀ n, 0 < n → (nth text n).kind ≠ .endOfFile →
    (nth text n).start.offset < (nth text n).stop.offset
  ordered : ∀ n, (nth text n).stop.offset ≤ (nth text (n + 1)).start.offset
  between : ∀ n, ∃ pieces, Fills (nth text n).stop pieces (nth text (n + 1)).start ∧
    (nth text (n + 1)).lineBreak = pieces.any Filler.breaksLine
  covered : ∀ before c after, text = before ++ c :: after →
    InToken text (byteSize before) ∨ InFiller text (byteSize before)

theorem skipFrom_restOfLine (offset : Offset) (cs : List Char) :
    ∃ body, cs = body ++ (Cursor.skipFrom (!isLineBreak ·) offset cs).rest ∧
      (Cursor.skipFrom (!isLineBreak ·) offset cs).offset = offset + byteSize body ∧
      Filler.IsRestOfLine body (Cursor.skipFrom (!isLineBreak ·) offset cs).rest := by
  induction cs generalizing offset with
  | nil => exact ⟨[], rfl, rfl, by simp [Filler.IsRestOfLine, Cursor.skipFrom]⟩
  | cons c cs ih =>
    unfold Cursor.skipFrom
    split
    · rename_i stays
      obtain ⟨body, rest, size, line⟩ := ih (offset + c.utf8Size)
      refine ⟨c :: body, congrArg (c :: ·) rest, ?_, ?_, line.2⟩
      · rw [size, byteSize, Nat.add_assoc]
      · simpa using ⟨by simpa using stays, line.1⟩
    · rename_i ends
      exact ⟨[], rfl, rfl, by simp, by simpa using ends⟩

theorem commentEnd?_eq_some {offset : Offset} {broken : Bool} {cs : List Char}
    {after : Cursor × Bool} (h : commentEnd? offset broken cs = some after) :
    ∃ body, cs = body ++ '*' :: '/' :: after.1.rest ∧ ¬ ['*', '/'] <:+: body ∧
      after.1.offset = offset + byteSize body + 2 ∧
      after.2 = (broken || body.any isLineBreak) := by
  fun_induction commentEnd? offset broken cs with
  | case1 => cases h
  | case2 offset broken cs =>
    obtain rfl := Option.some.inj h
    exact ⟨[], rfl, by simp, rfl, by simp⟩
  | case3 offset broken c cs goesOn ih =>
    obtain ⟨body, rest, inside, size, breaks⟩ := ih h
    refine ⟨c :: body, congrArg (c :: ·) rest, fun closes => ?_, ?_, ?_⟩
    · obtain here | later := List.infix_cons_iff.mp closes
      · obtain ⟨rfl, slash⟩ := List.cons_prefix_cons.mp here
        obtain ⟨more, rfl⟩ := slash
        exact goesOn _ rfl rest
      · exact inside later
    · rw [size, byteSize, Nat.add_assoc offset]
    · rw [breaks, List.any_cons, Bool.or_assoc]

theorem commentEnd?_eq_none {offset : Offset} {broken : Bool} {cs : List Char}
    (h : commentEnd? offset broken cs = none) : ¬ ['*', '/'] <:+: cs := by
  fun_induction commentEnd? offset broken cs with
  | case1 => simp
  | case2 => cases h
  | case3 offset broken c cs goesOn ih =>
    intro closes
    obtain here | later := List.infix_cons_iff.mp closes
    · obtain ⟨rfl, slash⟩ := List.cons_prefix_cons.mp here
      obtain ⟨more, rfl⟩ := slash
      exact goesOn _ rfl rfl
    · exact ih h later

theorem skipAll_eq (c : Cursor) : c.skipAll = ⟨c.offset + byteSize c.rest, []⟩ := by
  obtain ⟨offset, cs⟩ := c
  simp only [Cursor.skipAll, Cursor.skipWhile]
  induction cs generalizing offset with
  | nil => rfl
  | cons c cs ih => rw [Cursor.skipFrom, if_pos rfl, ih, byteSize, Nat.add_assoc]

/-- What is filled, and whether a line ended before or in it. -/
def Skips (c : Cursor) (broken : Bool) (t : Trivia) : Prop :=
  ∃ pieces, Fills c pieces t.cursor ∧ t.lineBreak = (broken || pieces.any Filler.breaksLine)

theorem skips_nothing (c : Cursor) (broken : Bool) : Skips c broken ⟨c, broken, none⟩ :=
  ⟨[], .nil c, by simp⟩

theorem Skips.piece {c d : Cursor} {broken broken' : Bool} {t : Trivia} (piece : Filler)
    (h : Skips d broken' t) (rest : c.rest = piece.text ++ d.rest)
    (offset : d.offset = c.offset + byteSize piece.text) (may : piece.StandsAt c.offset d.rest)
    (breaks : broken' = (broken || piece.breaksLine)) : Skips c broken t := by
  obtain ⟨pieces, fills, line⟩ := h
  exact ⟨piece :: pieces, .cons rest offset may fills,
    by rw [line, breaks, List.any_cons, Bool.or_assoc]⟩

theorem Filler.IsRestOfLine.any {body after : List Char} (h : IsRestOfLine body after) :
    body.any isLineBreak = false := by
  simpa using h.1

/-- What is skipped is made of pieces, and a line ends in it if it ends in one of them. -/
theorem skips_skipTrivia (c : Cursor) (broken : Bool) : Skips c broken (skipTrivia c broken) := by
  fun_induction skipTrivia c broken with
  | case1 c => exact skips_nothing c _
  | case2 c broken cs slashes ih =>
    obtain ⟨body, rest, size, line⟩ := skipFrom_restOfLine (c.offset + 2) cs
    refine ih.piece (.lineComment body) (slashes.trans ?_) ?_ line ?_
    · exact congrArg ('/' :: '/' :: ·) rest
    · rw [size, Filler.byteSize_lineComment, Nat.add_assoc]
    · simp [Filler.breaksLine, Filler.text, line.any, isLineBreak]
  | case3 c broken cs opens after inside closes ih =>
    obtain ⟨body, rest, noEnd, size, breaks : inside = _⟩ := commentEnd?_eq_some closes
    refine ih.piece (.blockComment body) (opens.trans ?_) ?_ noEnd ?_
    · rw [rest]
      simp [Filler.text]
    · rw [size, Filler.byteSize_blockComment, Nat.add_assoc, Nat.add_assoc]
    · rw [breaks]
      simp [Filler.breaksLine, Filler.text, isLineBreak]
  | case4 c broken cs opens noEnd =>
    refine (skips_nothing c.skipAll broken).piece (.openComment cs) (opens.trans ?_) ?_
      ⟨commentEnd?_eq_none noEnd, by rw [skipAll_eq]⟩ (Bool.or_false _).symm
    · rw [skipAll_eq, List.append_nil]
      rfl
    · rw [skipAll_eq, opens]
      rfl
  | case5 c broken x cs _ _ stands breaks ih =>
    exact ih.piece (.terminator x) stands rfl breaks
      (by simp [Filler.breaksLine, Filler.text, breaks])
  | case6 c broken x cs _ _ stands noBreak isHash ih =>
    obtain ⟨rfl, start, bang⟩ : x = '#' ∧ c.offset = 0 ∧ cs.head? = some '!' := by
      simpa [and_assoc] using isHash
    obtain ⟨cs, rfl⟩ := List.head?_eq_some_iff.mp bang
    obtain ⟨body, rest, size, line⟩ := skipFrom_restOfLine (c.offset + 2) cs
    have skips : Cursor.skipFrom (!isLineBreak ·) (c.offset + 1) ('!' :: cs) =
      Cursor.skipFrom (!isLineBreak ·) (c.offset + 2) cs := rfl
    rw [skips] at ih ⊢
    refine ih.piece (.hashBang body) (stands.trans ?_) ?_ ⟨start, line⟩ ?_
    · exact congrArg ('#' :: '!' :: ·) rest
    · rw [size, Filler.byteSize_hashBang, Nat.add_assoc]
    · simp [Filler.breaksLine, Filler.text, line.any, isLineBreak]
  | case7 c broken x cs _ _ stands noBreak _ isBlank ih =>
    refine ih.piece (.blank x) stands rfl ⟨by simpa using noBreak, by simpa using isBlank⟩ ?_
    simp [Filler.breaksLine, Filler.text, noBreak]
  | case8 c => exact skips_nothing c _

theorem Fills.inFiller {text : List Char} {c d : Cursor} {pieces : List Filler}
    (fills : Fills c pieces d) (located : (Cursor.ofText text).Before c) {offset : Offset}
    (reached : c.offset ≤ offset) (inside : offset < d.offset) : InFiller text offset := by
  induction fills with
  | nil c => exact absurd reached (Nat.not_le.mpr inside)
  | @cons c d e piece pieces rest size may fills ih =>
    by_cases here : offset < d.offset
    · obtain ⟨before, stands, starts⟩ := located
      have starts : c.offset = byteSize before := starts.trans (Nat.zero_add _)
      rw [starts] at reached may
      rw [size, starts] at here
      exact ⟨before, piece, d.rest, by rw [← rest]; exact stands, may, reached, here⟩
    · exact ih (located.trans ⟨piece.text, rest, size⟩) (Nat.not_lt.mp here) inside

namespace Scanner

theorem start_scan (s : Scanner) : s.scan.start = (skipTrivia s.stop false).cursor := by
  unfold scan
  simp only
  split <;> rfl

theorem lineBreak_scan (s : Scanner) :
    s.scan.lineBreak = (skipTrivia s.stop false).lineBreak := by
  unfold scan
  simp only
  split <;> rfl

theorem holds_nth (text : List Char) (n : Nat) : (nth text n).Holds text := by
  induction n with
  | zero => exact holds_ofText text
  | succ n ih => exact ih.scan

/-- The end of a text is read where nothing is left of it. -/
theorem Holds.rest_eq_nil {text : List Char} {s : Scanner} (h : s.Holds text)
    (ends : s.kind = .endOfFile) : s.start = s.stop ∧ s.stop.rest = [] := by
  obtain ⟨token, rest, offset, fits⟩ := h.reads
  have fits : Kind.Fits s.value token s.stop.rest s.kind := fits
  rw [ends] at fits
  obtain ⟨-, rfl, empty⟩ := fits
  have offset : s.start.offset = s.stop.offset := offset.symm
  have same : Cursor.mk s.start.offset s.start.rest = ⟨s.stop.offset, s.stop.rest⟩ :=
    congr (congrArg Cursor.mk offset) rest
  exact ⟨same, empty⟩

theorem scan_of_rest_eq_nil {s : Scanner} (none : s.stop.rest = []) :
    s.scan.kind = .endOfFile := by
  have stays : (skipTrivia s.stop false).cursor = s.stop := by
    unfold skipTrivia
    split <;> simp_all
  unfold scan
  simp only
  split
  · rfl
  · simp_all

end Scanner

open Scanner (holds_nth)

theorem proper_nth_succ (text : List Char) (n : Nat) (more : (nth text (n + 1)).kind ≠ .endOfFile) :
    (nth text (n + 1)).start.offset < (nth text (n + 1)).stop.offset :=
  (Scanner.standsIn_scan (holds_nth text n).stop_before).1.proper more

theorem ordered_nth (text : List Char) (n : Nat) :
    (nth text n).stop.offset ≤ (nth text (n + 1)).start.offset :=
  (Scanner.standsIn_scan (holds_nth text n).stop_before).2

theorem Cursor.Before.length_lt {c d : Cursor} (h : c.Before d) (later : c.offset < d.offset) :
    d.rest.length < c.rest.length := by
  obtain ⟨passed, rest, offset⟩ := h
  cases passed with
  | nil => exact absurd (offset : d.offset = c.offset) (Nat.ne_of_gt later)
  | cons x passed =>
    rw [rest, List.length_append, List.length_cons]
    omega

/-- As long as the end is not reached, each token takes a character. -/
theorem length_rest_nth (text : List Char) (n : Nat) :
    (∃ m, 0 < m ∧ m ≤ n ∧ (nth text m).kind = .endOfFile) ∨
      (nth text n).stop.rest.length + n ≤ text.length := by
  induction n with
  | zero => exact .inr (Nat.le_refl _)
  | succ n ih =>
    obtain ⟨m, pos, le, ends⟩ | room := ih
    · exact .inl ⟨m, pos, Nat.le_succ_of_le le, ends⟩
    · by_cases ends : (nth text (n + 1)).kind = .endOfFile
      · exact .inl ⟨n + 1, Nat.succ_pos n, Nat.le_refl _, ends⟩
      · have stands := (Scanner.standsIn_scan (holds_nth text n).stop_before).1
        have skips : (nth text n).stop.Before (nth text (n + 1)).start :=
          Scanner.start_scan _ ▸ before_skipTrivia (nth text n).stop false
        have later : (nth text n).stop.offset < (nth text (n + 1)).stop.offset :=
          Nat.lt_of_le_of_lt (ordered_nth text n) (proper_nth_succ text n ends)
        have less := (skips.trans stands.stop).length_lt later
        exact .inr (by simp only [nth] at less ⊢; omega)

theorem exists_nth_endOfFile (text : List Char) :
    ∃ n, 0 < n ∧ n ≤ text.length + 1 ∧ (nth text n).kind = .endOfFile := by
  obtain found | room := length_rest_nth text (text.length + 1)
  · exact found
  · omega

theorem nth_endOfFile {text : List Char} {n : Nat} (ends : (nth text n).kind = .endOfFile) :
    (nth text n).start.offset = byteSize text ∧ (nth text n).stop.offset = byteSize text ∧
      (nth text (n + 1)).kind = .endOfFile := by
  have holds := holds_nth text n
  obtain ⟨same, none⟩ := holds.rest_eq_nil ends
  obtain ⟨passed, rest, offset⟩ := holds.stop_before
  have all : text = passed := by
    rw [none, List.append_nil] at rest
    exact rest
  have stop : (nth text n).stop.offset = byteSize text := by
    rw [offset, all]
    exact Nat.zero_add _
  exact ⟨same ▸ stop, stop, Scanner.scan_of_rest_eq_nil none⟩

theorem skips_nth (text : List Char) (n : Nat) :
    ∃ pieces, Fills (nth text n).stop pieces (nth text (n + 1)).start ∧
      (nth text (n + 1)).lineBreak = pieces.any Filler.breaksLine := by
  obtain ⟨pieces, fills, line⟩ := skips_skipTrivia (nth text n).stop false
  refine ⟨pieces, ?_, ?_⟩
  · rw [nth, Scanner.start_scan]
    exact fills
  · rw [nth, Scanner.lineBreak_scan]
    exact line

/-- Each place before where a token ends is in it, in an earlier one, or between two. -/
theorem covered_nth (text : List Char) (n : Nat) {offset : Offset}
    (passed : offset < (nth text n).stop.offset) : InToken text offset ∨ InFiller text offset := by
  induction n with
  | zero => exact absurd passed (Nat.not_lt_zero _)
  | succ n ih =>
    by_cases early : offset < (nth text n).stop.offset
    · exact ih early
    · by_cases between : offset < (nth text (n + 1)).start.offset
      · obtain ⟨pieces, fills, -⟩ := skips_nth text n
        exact .inr (fills.inFiller (holds_nth text n).stop_before (Nat.not_lt.mp early) between)
      · exact .inl ⟨n + 1, Nat.succ_pos n, Nat.not_lt.mp between, passed⟩

/-- Scanning a text again and again comes to its end and loses nothing on the way. -/
theorem scansAll (text : List Char) : ScansAll text where
  ends := exists_nth_endOfFile text
  stays _ := nth_endOfFile
  located n := ⟨(holds_nth text n).faithful.start, (holds_nth text n).faithful.stop⟩
  proper n pos more := by
    obtain ⟨m, rfl⟩ := Nat.exists_eq_add_one_of_ne_zero (Nat.ne_of_gt pos)
    exact proper_nth_succ text m more
  ordered := ordered_nth text
  between := skips_nth text
  covered before c after is := by
    obtain ⟨n, -, -, ends⟩ := exists_nth_endOfFile text
    refine covered_nth text n ?_
    rw [(nth_endOfFile ends).2.1, is, Text.byteSize_append]
    exact Nat.lt_add_of_pos_right (Nat.lt_of_lt_of_le c.utf8Size_pos (Nat.le_add_right _ _))

end LoopCapture.Token
