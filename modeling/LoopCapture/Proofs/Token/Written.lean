import LoopCapture.Proofs.Token.Value

/-!
# What is written is what is read

A gap is text that no token stands in: white space, line terminators and whole comments. A mark or a
name that is written after a gap is the next token of a scanner, whatever the gap, provided that
what follows does not make it a longer one.
-/

namespace LoopCapture.Text

theorem Ranges.exists_of_contains {ranges : Ranges} {c : Nat} (h : ranges.contains c = true) :
    ∃ range ∈ ranges, range.1 ≤ c ∧ c ≤ range.2 := by
  induction ranges with
  | nil => cases h
  | cons range ranges ih =>
    simp only [contains, Bool.and_eq_true, Bool.or_eq_true, decide_eq_true_eq] at h
    obtain ⟨first, last | later⟩ := h
    · exact ⟨range, List.mem_cons_self, first, last⟩
    · obtain ⟨range', mem, within⟩ := ih later
      exact ⟨range', List.mem_cons_of_mem _ mem, within⟩

/-- White space, line terminators and the byte order mark, by their code points. -/
def blanks : List Nat :=
  [0x9, 0xA, 0xB, 0xC, 0xD, 0x20, 0x85, 0xA0, 0x1680, 0x2000, 0x2001, 0x2002, 0x2003, 0x2004,
    0x2005, 0x2006, 0x2007, 0x2008, 0x2009, 0x200A, 0x2028, 0x2029, 0x202F, 0x205F, 0x3000, 0xFEFF]

theorem toNat_mem_blanks_of_isBlank {c : Char} (h : isBlank c = true) : c.toNat ∈ blanks := by
  obtain ⟨range, mem, within⟩ := Ranges.exists_of_contains h
  simp only [blankRanges, List.mem_cons, List.not_mem_nil, or_false] at mem
  simp only [blanks, List.mem_cons, List.not_mem_nil, or_false]
  rcases mem with rfl | rfl | rfl | rfl | rfl | rfl | rfl | rfl | rfl | rfl
  all_goals
    simp only at within
    omega

theorem toNat_mem_blanks_of_isLineBreak {c : Char} (h : isLineBreak c = true) :
    c.toNat ∈ blanks := by
  simp only [isLineBreak, Bool.or_eq_true, beq_iff_eq] at h
  rcases h with ((rfl | rfl) | rfl) | rfl
  all_goals decide

end LoopCapture.Text

namespace LoopCapture.Token
open Text (Offset byteSize isLineBreak isBlank blanks)

/-- Text that no token stands in. A line comment is followed by the terminator of its line, and a
block comment is closed. -/
inductive IsGap : List Char → Prop where
  | nil : IsGap []
  | blank {c : Char} {cs : List Char} : isLineBreak c = true ∨ isBlank c = true ∨ c = '\ufeff' →
    IsGap cs → IsGap (c :: cs)
  | lineComment {body cs : List Char} {c : Char} : (∀ x ∈ body, isLineBreak x = false) →
    isLineBreak c = true → IsGap cs → IsGap ('/' :: '/' :: (body ++ c :: cs))
  | blockComment {body cs : List Char} : ¬ ['*', '/'] <:+: body → IsGap cs →
    IsGap ('/' :: '*' :: (body ++ '*' :: '/' :: cs))

theorem toNat_mem_blanks {c : Char} (h : isLineBreak c = true ∨ isBlank c = true ∨ c = '\ufeff') :
    c.toNat ∈ blanks := by
  obtain is | is | rfl := h
  · exact Text.toNat_mem_blanks_of_isLineBreak is
  · exact Text.toNat_mem_blanks_of_isBlank is
  · decide

/-- No name goes on with white space. -/
theorem isNamePart_eq_false {c : Char} (h : c.toNat ∈ blanks) : isNamePart c = false := by
  have apart : ∀ n ∈ blanks, isNamePart (Char.ofNat n) = false := by decide +kernel
  exact Char.ofNat_toNat c ▸ apart _ h

structure Gap where
  text : List Char
  isGap : IsGap text

theorem IsGap.append {gap cs : List Char} (h : IsGap gap) (h' : IsGap cs) : IsGap (gap ++ cs) := by
  induction h with
  | nil => exact h'
  | blank is _ ih => exact .blank is ih
  | @lineComment body rest c inside is _ ih =>
    rw [List.cons_append, List.cons_append, List.append_assoc]
    exact .lineComment inside is ih
  | @blockComment body rest inside _ ih =>
    rw [List.cons_append, List.cons_append, List.append_assoc]
    exact .blockComment inside ih

def Gap.append (gap gap' : Gap) : Gap := ⟨gap.text ++ gap'.text, gap.isGap.append gap'.isGap⟩

def Gap.empty : Gap := ⟨[], .nil⟩

def Gap.space : Gap := ⟨[' '], .blank (.inr (.inl rfl)) .nil⟩

/-- Trivia begins at a character, given the text after it. -/
def beginsTrivia (offset : Offset) (x : Char) (cs : List Char) : Bool :=
  isLineBreak x || isBlank x || x == '\ufeff' ||
    x == '/' && (cs.head? == some '/' || cs.head? == some '*') ||
    x == '#' && offset == 0 && cs.head? == some '!'

/-- What is no trivia is not skipped. -/
theorem skipTrivia_eq_of_not_begins {offset : Offset} {x : Char} {cs : List Char} (broken : Bool)
    (h : beginsTrivia offset x cs = false) :
    skipTrivia ⟨offset, x :: cs⟩ broken = ⟨⟨offset, x :: cs⟩, broken, none⟩ := by
  unfold skipTrivia
  simp only [beginsTrivia, Bool.or_eq_false_iff] at h
  obtain ⟨⟨⟨⟨noBreak, noBlank⟩, noMark⟩, noComment⟩, noBang⟩ := h
  split
  · simp_all
  · simp_all
  · simp_all
  · simp_all

theorem skipFrom_append {p : Char → Bool} (body : List Char) {cs : List Char} (offset : Offset)
    (all : ∀ x ∈ body, p x = true) (ends : ∀ x ∈ cs.head?, p x = false) :
    Cursor.skipFrom p offset (body ++ cs) = ⟨offset + byteSize body, cs⟩ := by
  induction body generalizing offset with
  | nil =>
    cases cs with
    | nil => rfl
    | cons x cs => simp [Cursor.skipFrom, byteSize, ends x rfl]
  | cons x body ih =>
    obtain ⟨first, rest⟩ := List.forall_mem_cons.mp all
    rw [List.cons_append, Cursor.skipFrom, if_pos first, ih _ rest, byteSize, Nat.add_assoc]

/-- A block comment ends where it is closed first. -/
theorem commentEnd?_append {body : List Char} (cs : List Char) (offset : Offset) (broken : Bool)
    (inside : ¬ ['*', '/'] <:+: body) :
    ∃ broken', commentEnd? offset broken (body ++ '*' :: '/' :: cs) =
      some (⟨offset + byteSize body + 2, cs⟩, broken') := by
  induction body generalizing offset broken with
  | nil => exact ⟨broken, rfl⟩
  | cons x body ih =>
    obtain ⟨noStart, later⟩ : ¬ ['*', '/'] <+: x :: body ∧ ¬ ['*', '/'] <:+: body := by
      rwa [List.infix_cons_iff, not_or] at inside
    obtain ⟨broken', ends⟩ := ih (offset + x.utf8Size) (broken || isLineBreak x) later
    refine ⟨broken', ?_⟩
    have goesOn : ∀ rest, x = '*' → body ++ '*' :: '/' :: cs = '/' :: rest → False := by
      rintro rest rfl closes
      cases body with
      | nil => simp at closes
      | cons y body =>
        obtain ⟨rfl, -⟩ := List.cons.inj closes
        exact noStart ⟨body, rfl⟩
    rw [List.cons_append, commentEnd?, ends, byteSize, Nat.add_assoc offset]
    exact goesOn

theorem skipTrivia_blank {c : Char} (cs : List Char) (offset : Offset) (broken : Bool)
    (is : isLineBreak c = true ∨ isBlank c = true ∨ c = '\ufeff') :
    ∃ broken', skipTrivia ⟨offset, c :: cs⟩ broken =
      skipTrivia ⟨offset + c.utf8Size, cs⟩ broken' := by
  have mem := toNat_mem_blanks is
  obtain ⟨noSlash, noHash⟩ : c ≠ '/' ∧ c ≠ '#' := by
    constructor <;> rintro rfl <;> revert mem <;> decide
  refine ⟨if isLineBreak c then true else broken, ?_⟩
  rw [skipTrivia]
  split
  · simp_all
  · simp_all
  · simp_all
  · rename_i same
    obtain ⟨rfl, rfl⟩ := List.cons.inj same
    by_cases breaks : isLineBreak c = true
    · rw [if_pos breaks, if_pos breaks]
    · simp_all

theorem skipTrivia_lineComment {cs : List Char} (offset : Offset) (broken : Bool) :
    skipTrivia ⟨offset, '/' :: '/' :: cs⟩ broken =
      skipTrivia (Cursor.skipFrom (!isLineBreak ·) (offset + 2) cs) broken := by
  rw [skipTrivia]
  simp only

theorem skipTrivia_blockComment {cs : List Char} {offset : Offset} {after : Cursor} {inside : Bool}
    (broken : Bool) (ends : commentEnd? (offset + 2) false cs = some (after, inside)) :
    skipTrivia ⟨offset, '/' :: '*' :: cs⟩ broken = skipTrivia after (broken || inside) := by
  rw [skipTrivia]
  simp only
  split
  · rename_i ends'
    obtain ⟨rfl, rfl⟩ := Prod.mk.inj (Option.some.inj (ends'.symm.trans ends))
    rfl
  · rename_i none
    cases none.symm.trans ends

/-- Nothing is read in a gap. -/
theorem skipTrivia_append {gap : List Char} (h : IsGap gap) (cs : List Char) (offset : Offset)
    (broken : Bool) : ∃ broken', skipTrivia ⟨offset, gap ++ cs⟩ broken =
      skipTrivia ⟨offset + byteSize gap, cs⟩ broken' := by
  induction h generalizing offset broken with
  | nil => exact ⟨broken, rfl⟩
  | @blank c gap is _ ih =>
    obtain ⟨broken', first⟩ := skipTrivia_blank (gap ++ cs) offset broken is
    obtain ⟨broken'', rest⟩ := ih (offset + c.utf8Size) broken'
    exact ⟨broken'', by rw [List.cons_append, first, rest, byteSize, Nat.add_assoc]⟩
  | @lineComment body gap c all ends _ ih =>
    obtain ⟨broken', last⟩ :=
      skipTrivia_blank (gap ++ cs) (offset + 2 + byteSize body) broken (.inl ends)
    obtain ⟨broken'', rest⟩ := ih (offset + 2 + byteSize body + c.utf8Size) broken'
    refine ⟨broken'', ?_⟩
    have skips : Cursor.skipFrom (!isLineBreak ·) (offset + 2) (body ++ c :: (gap ++ cs)) =
      ⟨offset + 2 + byteSize body, c :: (gap ++ cs)⟩ :=
        skipFrom_append body _ (by simpa using all) (by simpa using ends)
    have size : byteSize ('/' :: '/' :: (body ++ c :: gap)) =
        2 + byteSize body + c.utf8Size + byteSize gap := by
      simp only [byteSize, Text.byteSize_append, show ('/' : Char).utf8Size = 1 from rfl]
      omega
    simp only [List.cons_append, List.append_assoc]
    rw [skipTrivia_lineComment, skips, last, rest, size, Nat.add_assoc offset,
      Nat.add_assoc offset, Nat.add_assoc offset]
  | @blockComment body gap inside _ ih =>
    obtain ⟨broken', ends⟩ := commentEnd?_append (gap ++ cs) (offset + 2) false inside
    obtain ⟨broken'', rest⟩ := ih (offset + 2 + byteSize body + 2) (broken || broken')
    refine ⟨broken'', ?_⟩
    have size : byteSize ('/' :: '*' :: (body ++ '*' :: '/' :: gap)) =
        2 + byteSize body + 2 + byteSize gap := by
      simp only [byteSize, Text.byteSize_append, show ('/' : Char).utf8Size = 1 from rfl,
        show ('*' : Char).utf8Size = 1 from rfl]
      omega
    simp only [List.cons_append, List.append_assoc]
    rw [skipTrivia_blockComment broken ends, rest, size, Nat.add_assoc offset,
      Nat.add_assoc offset, Nat.add_assoc offset]

/-- No name goes on in a gap, and neither does an equals sign. -/
theorem IsGap.head {gap : List Char} (h : IsGap gap) :
    ∀ c ∈ gap.head?, isNamePart c = false ∧ c ≠ '=' ∧ c ≠ '>' := by
  cases h with
  | nil => simp
  | @blank c gap is _ =>
    rintro _ ⟨⟩
    have mem := toNat_mem_blanks is
    refine ⟨isNamePart_eq_false mem, ?_, ?_⟩ <;> rintro rfl <;> revert mem <;> decide
  | lineComment =>
    rintro _ ⟨⟩
    decide
  | blockComment =>
    rintro _ ⟨⟩
    decide

namespace Scanner

def next (c : Cursor) : Scanner := scan ⟨c, c, .unknown, "", false, #[]⟩

/-- The next token depends only on where the current one stops. -/
theorem scan_eq_next {s : Scanner} (quiet : s.errors = #[]) : s.scan = next s.stop := by
  obtain ⟨start, stop, kind, value, lineBreak, errors⟩ := s
  obtain rfl : errors = #[] := quiet
  rfl

end Scanner

/-- The token that follows a place, and that nothing is wrong with it. -/
structure Shows (c : Cursor) (kind : Kind) (value : String) (start : Offset) (after : Cursor) :
    Prop where
  kind : (Scanner.next c).kind = kind
  value : (Scanner.next c).value = value
  start : (Scanner.next c).start.offset = start
  stop : (Scanner.next c).stop = after
  quiet : (Scanner.next c).errors = #[]

/-- The character after a gap begins the next token, unless it begins trivia. -/
theorem shows_lexeme {gap cs : List Char} {x : Char} {offset : Offset} (isGap : IsGap gap)
    {l : Lexeme} (stands : beginsTrivia (offset + byteSize gap) x cs = false)
    (reads : lexeme ⟨offset + byteSize gap, x :: cs⟩ x cs = l) (clean : l.fault = none) :
    Shows ⟨offset, gap ++ x :: cs⟩ l.kind l.value (offset + byteSize gap) l.after := by
  obtain ⟨broken, skips⟩ := skipTrivia_append isGap (x :: cs) offset false
  rw [skipTrivia_eq_of_not_begins broken stands] at skips
  have next : Scanner.next ⟨offset, gap ++ x :: cs⟩ =
      ⟨⟨offset + byteSize gap, x :: cs⟩, l.after, l.kind, l.value, broken, #[]⟩ := by
    unfold Scanner.next Scanner.scan
    simp only [skips, reads, Scanner.become, clean, Scanner.note, Option.map_none]
  exact ⟨by rw [next], by rw [next], by rw [next], by rw [next], by rw [next]⟩

/-- The end of the text follows where nothing is left of it. -/
theorem shows_end (offset : Offset) : Shows ⟨offset, []⟩ .endOfFile "" offset ⟨offset, []⟩ := by
  have skips : skipTrivia ⟨offset, []⟩ false = ⟨⟨offset, []⟩, false, none⟩ := by rw [skipTrivia]
  have next : Scanner.next ⟨offset, []⟩ =
      ⟨⟨offset, []⟩, ⟨offset, []⟩, .endOfFile, "", false, #[]⟩ := by
    unfold Scanner.next Scanner.scan
    simp only [skips, Scanner.become, Scanner.note, Option.map_none]
  exact ⟨by rw [next], by rw [next], by rw [next], by rw [next], by rw [next]⟩

/-- Brackets and separators, which nothing that follows makes longer. -/
def Punctuator.isPlain : Punctuator → Bool
  | .openBrace | .closeBrace | .openParen | .closeParen | .openBracket | .closeBracket
  | .semicolon | .comma | .colon | .ellipsis => true
  | _ => false

def Gap.mark (gap : Gap) (mark : Punctuator) : List Char := gap.text ++ mark.spelling.toList

/-- What follows a mark does not make it a longer one. -/
def Punctuator.Ends (mark : Punctuator) (cs : List Char) : Prop :=
  mark.isPlain = true ∨ mark = .eq ∧ ∀ c ∈ cs.head?, c ≠ '=' ∧ c ≠ '>'

/-- A mark is read where it is written, and begins no trivia. -/
theorem lexeme_mark {mark : Punctuator} {cs : List Char} (ends : mark.Ends cs) (offset : Offset) :
    ∃ x xs, mark.spelling.toList ++ cs = x :: xs ∧ isNamePart x = false ∧
      beginsTrivia offset x xs = false ∧
      lexeme ⟨offset, x :: xs⟩ x xs =
        ⟨.punctuator mark, "", ⟨offset + mark.spelling.length, cs⟩, none⟩ := by
  obtain plain | ⟨rfl, other⟩ := ends
  · cases mark <;> first | exact ⟨_, _, rfl, rfl, rfl, rfl⟩ | cases plain
  · refine ⟨'=', cs, rfl, rfl, rfl, ?_⟩
    have reads : Punctuator.read? ('=' :: cs) = some (.eq, cs) := by
      cases cs with
      | nil => rfl
      | cons c cs =>
        obtain ⟨noEq, noArrow⟩ := other c rfl
        rw [Punctuator.read?] <;> simp_all
    have noDigit : '='.isDigit = false := rfl
    have noName : isNameStart '=' = false := rfl
    simp [lexeme, reads, noDigit, noName]

theorem shows_mark (gap : Gap) {mark : Punctuator} {cs : List Char} (ends : mark.Ends cs)
    (offset : Offset) :
    Shows ⟨offset, gap.mark mark ++ cs⟩ (.punctuator mark) "" (offset + byteSize gap.text)
      ⟨offset + byteSize (gap.mark mark), cs⟩ := by
  obtain ⟨x, xs, text, -, stands, reads⟩ := lexeme_mark ends (offset + byteSize gap.text)
  have shows := shows_lexeme gap.isGap stands reads rfl
  rw [← text, ← List.append_assoc, Nat.add_assoc, ← Punctuator.byteSize_spelling,
    ← Text.byteSize_append] at shows
  exact shows

theorem shows_plain (gap : Gap) (mark : Punctuator) (plain : mark.isPlain = true) (cs : List Char)
    (offset : Offset) :
    Shows ⟨offset, gap.mark mark ++ cs⟩ (.punctuator mark) "" (offset + byteSize gap.text)
      ⟨offset + byteSize (gap.mark mark), cs⟩ :=
  shows_mark gap (.inl plain) offset

/-- A word that stands for a variable. A keyword may be one unless it is reserved; `await` is left
out, being an operator outside of functions. -/
structure Name where
  first : Char
  rest : List Char
  starts : isNameStart first = true
  goesOn : ∀ c ∈ rest, isNamePart c = true
  isFree : ∀ word, Keyword.ofSpelling? (String.ofList (first :: rest)) = some word →
    word.isContextual = true ∧ word ≠ .await_

namespace Name

def text (n : Name) : List Char := n.first :: n.rest

def value (n : Name) : String := String.ofList n.text

def kind (n : Name) : Kind := ((Keyword.ofSpelling? n.value).map Kind.keyword).getD .identifier

theorem kind_eq (n : Name) :
    n.kind = .identifier ∨ ∃ word : Keyword, n.kind = .keyword word ∧ word.isContextual = true ∧
      word ≠ .await_ := by
  unfold kind
  cases found : Keyword.ofSpelling? n.value with
  | none => exact .inl rfl
  | some word => exact .inr ⟨word, rfl, n.isFree word found⟩

end Name

structure Word where
  gap : Gap
  name : Name

def Word.text (w : Word) : List Char := w.gap.text ++ w.name.text

/-- No name goes on at the start of a text. -/
def EndsName (cs : List Char) : Prop := ∀ c ∈ cs.head?, isNamePart c = false

theorem endsName_mark (gap : Gap) {mark : Punctuator} {cs : List Char} (ends : mark.Ends cs) :
    EndsName (gap.mark mark ++ cs) := by
  obtain ⟨x, xs, text, noPart, -⟩ := lexeme_mark ends 0
  rw [Gap.mark, List.append_assoc, text]
  have head := gap.isGap.head
  cases h : gap.text with
  | nil =>
    rintro _ ⟨⟩
    exact noPart
  | cons c cs =>
    rintro _ ⟨⟩
    exact (head c (by rw [h]; rfl)).1

theorem ends_word (w : Word) (cs : List Char) : Punctuator.eq.Ends (w.text ++ cs) := by
  refine .inr ⟨rfl, ?_⟩
  have head := w.gap.isGap.head
  rw [Word.text]
  cases h : w.gap.text with
  | nil =>
    rintro _ ⟨⟩
    have starts := w.name.starts
    constructor <;> intro is <;> rw [is] at starts <;> cases starts
  | cons c cs =>
    rintro _ ⟨⟩
    exact (head c (by rw [h]; rfl)).2

theorem isNamePart_of_isNameStart {c : Char} (h : isNameStart c = true) : isNamePart c = true := by
  simp only [isNameStart, isNamePart, Bool.or_eq_true] at h ⊢
  grind

theorem isDigit_of_isNameStart {c : Char} (h : isNameStart c = true) : c.isDigit = false := by
  have apart : ∀ n < 58, 48 ≤ n → isNameStart (Char.ofNat n) = false := by decide
  refine Bool.eq_false_iff.mpr fun digit => ?_
  simp only [Char.isDigit, Bool.and_eq_true, decide_eq_true_eq] at digit
  have other := apart c.toNat (Nat.lt_succ_of_le digit.2) digit.1
  rw [Char.ofNat_toNat, h] at other
  cases other

/-- Letters are read where they are written, as a keyword or a name, and begin no trivia. -/
theorem lexeme_letters {x : Char} {xs : List Char} (starts : isNameStart x = true)
    (goesOn : ∀ c ∈ xs, isNamePart c = true) {cs : List Char} (ends : EndsName cs)
    (offset : Offset) :
    beginsTrivia offset x (xs ++ cs) = false ∧
      lexeme ⟨offset, x :: (xs ++ cs)⟩ x (xs ++ cs) =
        ⟨((Keyword.ofSpelling? (String.ofList (x :: xs))).map Kind.keyword).getD .identifier,
          String.ofList (x :: xs), ⟨offset + byteSize (x :: xs), cs⟩, none⟩ := by
  have part := isNamePart_of_isNameStart starts
  have solid : x.toNat ∉ blanks := fun mem => by simp [isNamePart_eq_false mem] at part
  have other : ∀ c, isNameStart c = false → (x == c) = false := by
    intro c noStart
    refine beq_eq_false_iff_ne.mpr fun is => ?_
    rw [← is, starts] at noStart
    cases noStart
  have noBreak : isLineBreak x = false :=
    Bool.eq_false_iff.mpr fun is => solid (toNat_mem_blanks (.inl is))
  have noBlank : isBlank x = false :=
    Bool.eq_false_iff.mpr fun is => solid (toNat_mem_blanks (.inr (.inl is)))
  have noMark : (x == '\ufeff') = false :=
    beq_eq_false_iff_ne.mpr fun is => solid (toNat_mem_blanks (.inr (.inr is)))
  constructor
  · simp only [beginsTrivia, noBreak, noBlank, noMark, other '/' rfl, other '#' rfl,
      Bool.false_and, Bool.or_false]
  · have skips : Cursor.skipWhile isNamePart ⟨offset, x :: (xs ++ cs)⟩ =
        ⟨offset + byteSize (x :: xs), cs⟩ :=
      skipFrom_append (x :: xs) offset (List.forall_mem_cons.mpr ⟨part, goesOn⟩) ends
    have value : Cursor.textTo ⟨offset, x :: (xs ++ cs)⟩ ⟨offset + byteSize (x :: xs), cs⟩ =
        x :: xs := Cursor.textTo_eq rfl rfl
    simp only [lexeme, other '"' rfl, other '\'' rfl, other '\x60' rfl, other '.' rfl,
      other '#' rfl, isDigit_of_isNameStart starts, starts, Bool.or_self, Bool.false_and,
      Bool.false_eq_true, if_false, if_true, wordLexeme, skips, value]

/-- A name is read where it is written, and begins no trivia. -/
theorem lexeme_name (n : Name) {cs : List Char} (ends : EndsName cs) (offset : Offset) :
    beginsTrivia offset n.first (n.rest ++ cs) = false ∧
      lexeme ⟨offset, n.first :: (n.rest ++ cs)⟩ n.first (n.rest ++ cs) =
        ⟨n.kind, n.value, ⟨offset + byteSize n.text, cs⟩, none⟩ :=
  lexeme_letters n.starts n.goesOn ends offset

theorem shows_word (w : Word) {cs : List Char} (ends : EndsName cs) (offset : Offset) :
    Shows ⟨offset, w.text ++ cs⟩ w.name.kind w.name.value (offset + byteSize w.gap.text)
      ⟨offset + byteSize w.text, cs⟩ := by
  obtain ⟨stands, reads⟩ := lexeme_name w.name ends (offset + byteSize w.gap.text)
  have shows := shows_lexeme w.gap.isGap stands reads rfl
  rw [Nat.add_assoc, ← Text.byteSize_append] at shows
  rw [Word.text, List.append_assoc]
  exact shows

def BeginsWith (mark : Punctuator) (cs : List Char) : Prop :=
  ∃ (gap : Gap) (rest : List Char), cs = gap.mark mark ++ rest ∧ mark.Ends rest

namespace BeginsWith

variable {mark : Punctuator} {cs : List Char}

theorem mark_append (gap : Gap) (ends : mark.Ends cs) : BeginsWith mark (gap.mark mark ++ cs) :=
  ⟨gap, cs, rfl, ends⟩

theorem plain_append (gap : Gap) (mark : Punctuator) (plain : mark.isPlain = true)
    (cs : List Char) : BeginsWith mark (gap.mark mark ++ cs) :=
  mark_append gap (.inl plain)

theorem endsName (h : BeginsWith mark cs) : EndsName cs := by
  obtain ⟨gap, rest, rfl, ends⟩ := h
  exact endsName_mark gap ends

theorem shows (h : BeginsWith mark cs) (offset : Offset) :
    ∃ value start after, Shows ⟨offset, cs⟩ (.punctuator mark) value start after := by
  obtain ⟨gap, rest, rfl, ends⟩ := h
  exact ⟨_, _, _, shows_mark gap ends offset⟩

end BeginsWith

end LoopCapture.Token
