import LoopCapture.Proofs.Text.Cutting
import LoopCapture.Proofs.Token.Standing

/-!
# What the value of a token says of its text

Whatever is asked of a scanner, and in whatever order, it stands between two characters of its text,
and the value of its token goes with the text of the token as the kind wants it: names, keywords,
numbers and regular expressions are their own text, a template has its raw text, and a mark of
punctuation has no value.
-/

namespace LoopCapture.Token
open Text (byteSize dropBytes? slice?)
open Grammar (Rereading)

/-- What may be asked of a scanner. -/
inductive Request where
  | scan
  | reread (again : Rereading)
  | save
  /-- Goes back to a state that was saved, which stays saved. -/
  | restore (index : Nat)
  | takeErrors

/-- A scanner at work and the states that were saved, the last one first. -/
structure Reading where
  scanner : Scanner
  saved : List Scanner

namespace Reading

def ofText (text : List Char) : Reading := ⟨.ofText text, []⟩

/-- After a request. Where no such state was saved, nothing happens. -/
def ask (r : Reading) : Request → Reading
  | .scan => { r with scanner := r.scanner.scan }
  | .reread again => { r with scanner := again.apply r.scanner }
  | .save => { r with saved := r.scanner :: r.saved }
  | .restore index =>
    match r.saved[index]? with
    | some saved => { r with scanner := r.scanner.rewind saved }
    | none => r
  | .takeErrors => { r with scanner := r.scanner.takeErrors.2 }

def askAll (r : Reading) (requests : List Request) : Reading := requests.foldl ask r

end Reading

def TemplatePart.opening : TemplatePart → Char
  | .whole | .head => '\x60'
  | .middle | .tail => '\x7d'

def TemplatePart.closing : TemplatePart → List Char
  | .whole | .tail => ['\x60']
  | .head | .middle => ['$', '\x7b']

/-- Raw template text that nothing ends: each backtick and each `${` in it is escaped. -/
inductive IsTemplateText : List Char → Prop where
  | nil : IsTemplateText []
  | escape (e : Char) {cs : List Char} : IsTemplateText cs → IsTemplateText ('\\' :: e :: cs)
  | plain {c : Char} {cs : List Char} : c ≠ '\x60' → c ≠ '\\' →
    (c = '$' → cs.head? ≠ some '\x7b') → IsTemplateText cs → IsTemplateText (c :: cs)

def IsOpenTemplateText (raw : List Char) : Prop :=
  IsTemplateText raw ∨ ∃ cs, IsTemplateText cs ∧ raw = cs ++ ['\\']

/-- The value of a template part is the raw text between its delimiters. The closing one may be
missing at the end of the text. -/
def TemplatePart.Fits (part : TemplatePart) (raw token after : List Char) : Prop :=
  IsTemplateText raw ∧ token = part.opening :: raw ++ part.closing ∨
    (part = .whole ∨ part = .tail) ∧ IsOpenTemplateText raw ∧
      token = part.opening :: raw ∧ after = []

/-- The value goes with the text of a token of the kind, given the text after the token. Nothing is
said of strings, which have their escapes replaced. -/
def Kind.Fits (value : String) (token after : List Char) : Kind → Prop
  | .unknown => value = ""
  | .endOfFile => value = "" ∧ token = [] ∧ after = []
  | .identifier => value = String.ofList token ∧ ∀ word : Keyword, value ≠ word.spelling
  | .privateName => token = '#' :: value.toList
  | .number | .bigInt | .regExp => value = String.ofList token
  | .string => True
  | .template part => part.Fits value.toList token after
  | .punctuator mark => value = "" ∧ String.ofList token = mark.spelling
  | .keyword word => value = String.ofList token ∧ value = word.spelling

/-- The current token stands between two characters of the text, and its value goes with what is
written there. -/
structure Scanner.Faithful (text : List Char) (s : Scanner) : Prop where
  ordered : s.start.offset ≤ s.stop.offset
  bounded : s.stop.offset ≤ byteSize text
  start : dropBytes? s.start.offset text = some s.start.rest
  stop : dropBytes? s.stop.offset text = some s.stop.rest
  value : ∃ token, slice? s.start.offset s.stop.offset text = some token ∧
    s.tokenText = String.ofList token ∧ s.kind.Fits s.value token s.stop.rest

def Cursor.Reads (c : Cursor) (l : Lexeme) : Prop :=
  ∃ token, c.rest = token ++ l.after.rest ∧ l.after.offset = c.offset + byteSize token ∧
    l.kind.Fits l.value token l.after.rest

theorem Cursor.textTo_eq {c d : Cursor} {passed : List Char} (rest : c.rest = passed ++ d.rest)
    (offset : d.offset = c.offset + byteSize passed) : c.textTo d = passed := by
  simp [textTo, rest, offset, Text.takeBytes?_byteSize]

/-- What has its own text as its value fits, if the kind wants no more than that. -/
theorem Cursor.Before.reads {c : Cursor} {l : Lexeme} (h : c.Before l.after)
    (value : l.value = String.ofList (c.textTo l.after))
    (fits : ∀ token, l.value = String.ofList token → l.kind.Fits l.value token l.after.rest) :
    c.Reads l := by
  obtain ⟨passed, rest, offset⟩ := h
  exact ⟨passed, rest, offset, fits passed (value.trans (by rw [textTo_eq rest offset]))⟩

theorem Keyword.mem_all (word : Keyword) : word ∈ all := by
  cases word <;> decide

/-- A word is a keyword exactly if it is spelled like one. -/
theorem fits_word (token after : List Char) :
    (((Keyword.ofSpelling? (String.ofList token)).map Kind.keyword).getD .identifier).Fits
      (String.ofList token) token after := by
  cases found : Keyword.ofSpelling? (String.ofList token) with
  | none =>
    refine ⟨rfl, fun word same => ?_⟩
    have other := List.find?_eq_none.mp found word word.mem_all
    simp [← same] at other
  | some word =>
    have same := List.find?_some found
    exact ⟨rfl, (eq_of_beq same).symm⟩

theorem IsOpenTemplateText.escape (e : Char) {raw : List Char} (h : IsOpenTemplateText raw) :
    IsOpenTemplateText ('\\' :: e :: raw) := by
  obtain closed | ⟨cs, closed, rfl⟩ := h
  · exact .inl (closed.escape e)
  · exact .inr ⟨'\\' :: e :: cs, closed.escape e, rfl⟩

def TemplateEnd.Follows (raw after : List Char) : TemplateEnd → List Char → Prop
  | .closed, cs => IsTemplateText raw ∧ cs = raw ++ '\x60' :: after
  | .substitution, cs => IsTemplateText raw ∧ cs = raw ++ '$' :: '\x7b' :: after
  | .endOfText, cs => IsOpenTemplateText raw ∧ cs = raw ∧ after = []

theorem TemplateEnd.Follows.escape (e : Char) {raw after cs : List Char} {ending : TemplateEnd}
    (h : ending.Follows raw after cs) :
    ending.Follows ('\\' :: e :: raw) after ('\\' :: e :: cs) := by
  cases ending with
  | closed => exact ⟨h.1.escape e, congrArg ('\\' :: e :: ·) h.2⟩
  | substitution => exact ⟨h.1.escape e, congrArg ('\\' :: e :: ·) h.2⟩
  | endOfText => exact ⟨h.1.escape e, congrArg ('\\' :: e :: ·) h.2.1, h.2.2⟩

theorem TemplateEnd.Follows.plain {c : Char} {raw after cs : List Char} {ending : TemplateEnd}
    (noTick : c ≠ '\x60') (noEscape : c ≠ '\\') (noSubstitution : c = '$' → cs.head? ≠ some '\x7b')
    (h : ending.Follows raw after cs) : ending.Follows (c :: raw) after (c :: cs) := by
  have inside {part rest : List Char} (is : cs = part ++ rest) :
      IsTemplateText part → IsTemplateText (c :: part) := by
    refine .plain noTick noEscape fun dollar opens => noSubstitution dollar ?_
    rw [is, List.head?_append, opens, Option.some_or]
  cases ending with
  | closed => exact ⟨inside h.2 h.1, congrArg (c :: ·) h.2⟩
  | substitution => exact ⟨inside h.2 h.1, congrArg (c :: ·) h.2⟩
  | endOfText =>
    obtain ⟨closed | ⟨part, closed, is⟩, rfl, ends⟩ := h
    · exact ⟨.inl (inside (List.append_nil _).symm closed), rfl, ends⟩
    · exact ⟨.inr ⟨c :: part, inside is closed, congrArg (c :: ·) is⟩, rfl, ends⟩

theorem readTemplate_eq (reversed : List Char) (offset : Text.Offset) (cs : List Char) :
    ∃ raw, (readTemplate reversed offset cs).1.reverse = reversed.reverse ++ raw ∧
      (readTemplate reversed offset cs).2.2.Follows raw (readTemplate reversed offset cs).2.1.rest
        cs := by
  fun_induction readTemplate reversed offset cs with
  | case1 => exact ⟨[], by simp, .inl .nil, rfl, rfl⟩
  | case2 => exact ⟨[], by simp, .nil, rfl⟩
  | case3 => exact ⟨[], by simp, .nil, rfl⟩
  | case4 => exact ⟨['\\'], by simp, .inr ⟨[], .nil, rfl⟩, rfl, rfl⟩
  | case5 reversed offset e cs ih =>
    obtain ⟨raw, value, ending⟩ := ih
    exact ⟨'\\' :: e :: raw, by simpa using value, ending.escape e⟩
  | case6 reversed offset c cs noTick noSubstitution noEnd noEscape ih =>
    obtain ⟨raw, value, ending⟩ := ih
    refine ⟨c :: raw, by simpa using value, ending.plain noTick ?_ ?_⟩
    · rintro rfl
      cases cs with
      | nil => exact noEnd rfl rfl
      | cons e cs => exact noEscape e cs rfl rfl
    · rintro rfl opens
      obtain ⟨rest, rfl⟩ := List.head?_eq_some_iff.mp opens
      exact noSubstitution rest rfl rfl

/-- The part of a template that ends so. -/
def TemplateEnd.part (fromBacktick : Bool) : TemplateEnd → TemplatePart
  | .substitution => if fromBacktick then .head else .middle
  | .closed | .endOfText => if fromBacktick then .whole else .tail

theorem kind_templateLexeme (fromBacktick : Bool) (c : Cursor) :
    (templateLexeme fromBacktick c).kind =
      .template ((readTemplate [] c.offset c.rest).2.2.part fromBacktick) := by
  simp only [templateLexeme]
  cases (readTemplate [] c.offset c.rest).2.2 <;> cases fromBacktick <;> rfl

theorem TemplateEnd.opening_part (fromBacktick : Bool) (ending : TemplateEnd) :
    (ending.part fromBacktick).opening = if fromBacktick then '\x60' else '\x7d' := by
  cases ending <;> cases fromBacktick <;> rfl

theorem TemplateEnd.closing_part (fromBacktick : Bool) (ending : TemplateEnd) :
    (ending.part fromBacktick).closing =
      if ending = .substitution then ['$', '\x7b'] else ['\x60'] := by
  cases ending <;> cases fromBacktick <;> rfl

/-- What was passed is the raw text and the closing delimiter. -/
theorem TemplateEnd.Follows.fits {raw passed after cs : List Char} {ending : TemplateEnd}
    (fromBacktick : Bool) (h : ending.Follows raw after cs) (rest : cs = passed ++ after) :
    (ending.part fromBacktick).Fits raw ((ending.part fromBacktick).opening :: passed) after := by
  have upTo (closing : List Char) (is : cs = raw ++ closing ++ after) : passed = raw ++ closing :=
    List.append_cancel_right (rest.symm.trans is)
  cases ending with
  | closed =>
    refine .inl ⟨h.1, ?_⟩
    rw [closing_part, upTo ['\x60'] (by simpa using h.2)]
    rfl
  | substitution =>
    refine .inl ⟨h.1, ?_⟩
    rw [closing_part, upTo ['$', '\x7b'] (by simpa using h.2)]
    rfl
  | endOfText =>
    obtain ⟨isText, rfl, rfl⟩ := h
    obtain rfl : cs = passed := by simpa using rest
    exact .inr ⟨by cases fromBacktick <;> simp [part], isText, rfl, rfl⟩

theorem reads_templateLexeme {c : Cursor} {cs : List Char} (fromBacktick : Bool)
    (stands : c.rest = (if fromBacktick then '\x60' else '\x7d') :: cs) :
    c.Reads (templateLexeme fromBacktick ⟨c.offset + 1, cs⟩) := by
  obtain ⟨passed, rest, offset⟩ := before_readTemplate [] (c.offset + 1) cs
  obtain ⟨raw, value, ending⟩ := readTemplate_eq [] (c.offset + 1) cs
  have value : (templateLexeme fromBacktick ⟨c.offset + 1, cs⟩).value.toList = raw := by
    simpa [templateLexeme] using value
  have fits := ending.fits fromBacktick rest
  rw [TemplateEnd.opening_part] at fits
  refine ⟨_ :: passed, stands.trans (congrArg _ rest), ?_, ?_⟩
  · have one : (if fromBacktick then '\x60' else '\x7d').utf8Size = 1 := by
      cases fromBacktick <;> rfl
    rw [byteSize, one, ← Nat.add_assoc]
    exact offset
  · rw [kind_templateLexeme, Kind.Fits, value]
    exact fits

theorem value_numberLexeme (c : Cursor) :
    (numberLexeme c).value = String.ofList (c.textTo (numberLexeme c).after) ∧
      ((numberLexeme c).kind = .number ∨ (numberLexeme c).kind = .bigInt) := by
  fun_cases numberLexeme c <;> simp

theorem reads_numberLexeme {c : Cursor} (before : c.Before (numberLexeme c).after) :
    c.Reads (numberLexeme c) := by
  obtain ⟨value, isNumber⟩ := value_numberLexeme c
  refine before.reads value fun token same => ?_
  rcases isNumber with is | is
  all_goals
    rw [is]
    exact same

theorem reads_wordLexeme (c : Cursor) : c.Reads (wordLexeme c) := by
  have before : c.Before (wordLexeme c).after := Cursor.before_skipWhile isNamePart c
  refine before.reads rfl fun token value => ?_
  have word := fits_word token (wordLexeme c).after.rest
  rw [← value] at word
  exact word

theorem reads_regExpLexeme {c : Cursor} {cs : List Char} (stands : c.rest = '/' :: cs) :
    c.Reads (regExpLexeme c) :=
  ((Cursor.Before.past ['/'] stands rfl).trans (before_regExpLexeme stands)).reads rfl
    fun _ value => value

theorem reads_lexeme {c : Cursor} {x : Char} {cs : List Char} (stands : c.rest = x :: cs) :
    c.Reads (lexeme c x cs) := by
  have before : c.Before (lexeme c x cs).after :=
    (Cursor.Before.past [x] stands rfl).trans (before_lexeme stands)
  revert before
  fun_cases lexeme c x cs with
  | case1 =>
    rintro ⟨passed, rest, offset⟩
    exact ⟨passed, rest, offset, trivial⟩
  | case2 _ isBacktick =>
    obtain rfl := eq_of_beq isBacktick
    exact fun _ => reads_templateLexeme true stands
  | case3 => exact reads_numberLexeme
  | case4 _ _ _ isName name after =>
    obtain rfl : x = '#' := by grind
    obtain ⟨passed, rest, offset⟩ := Cursor.before_skipWhile isNamePart name
    refine fun _ => ⟨'#' :: passed, stands.trans (congrArg _ rest), ?_, ?_⟩
    · rw [byteSize, ← Nat.add_assoc]
      exact offset
    · simp only [Kind.Fits, after, Cursor.textTo_eq rest offset, String.toList_ofList]
  | case5 => exact fun _ => reads_wordLexeme c
  | case6 _ _ _ _ _ mark rest reads =>
    exact fun _ => ⟨mark.spelling.toList,
      stands.trans (Punctuator.eq_spelling_append_of_read? reads),
      by rw [Punctuator.byteSize_spelling], rfl, String.ofList_toList⟩
  | case7 =>
    rintro ⟨passed, rest, offset⟩
    exact ⟨passed, rest, offset, rfl⟩

namespace Scanner

def current (s : Scanner) : Lexeme := ⟨s.kind, s.value, s.stop, none⟩

/-- The scanner stands in the text, on a token that goes with what is written there. -/
structure Holds (text : List Char) (s : Scanner) : Prop where
  start : (Cursor.ofText text).Before s.start
  reads : s.start.Reads s.current

variable {text : List Char} {s : Scanner}

theorem Holds.written (h : s.Holds text) {mark : Punctuator} (is : s.kind = .punctuator mark) :
    s.value = "" ∧ s.start.rest = mark.spelling.toList ++ s.stop.rest ∧
      s.stop.offset = s.start.offset + mark.spelling.length := by
  obtain ⟨token, rest, offset, fits⟩ := h.reads
  have fits : Kind.Fits s.value token s.stop.rest s.kind := fits
  rw [is] at fits
  obtain rfl : token = mark.spelling.toList := by rw [← fits.2, String.toList_ofList]
  exact ⟨fits.1, rest, by rw [← Punctuator.byteSize_spelling]; exact offset⟩

theorem Holds.stop_before (h : s.Holds text) : (Cursor.ofText text).Before s.stop := by
  obtain ⟨token, rest, offset, -⟩ := h.reads
  exact h.start.trans ⟨token, rest, offset⟩

theorem holds_ofText (text : List Char) : (ofText text).Holds text :=
  ⟨.refl _, [], rfl, rfl, rfl⟩

theorem Holds.scan (h : s.Holds text) : s.scan.Holds text := by
  have start : (Cursor.ofText text).Before (skipTrivia s.stop false).cursor :=
    h.stop_before.trans (before_skipTrivia s.stop false)
  unfold Scanner.scan
  simp only
  split
  · rename_i ends
    exact ⟨start, [], rfl, rfl, rfl, rfl, ends⟩
  · rename_i stands
    exact ⟨start, reads_lexeme stands⟩

theorem Holds.rescanGreater (h : s.Holds text) : s.rescanGreater.Holds text := by
  unfold Scanner.rescanGreater
  split
  · rename_i isGreater
    obtain ⟨value, written, offset⟩ := h.written isGreater
    have longer := written.trans (Punctuator.cons_eq_spelling_append s.stop.rest)
    refine ⟨h.start, _, longer, ?_, value, String.ofList_toList⟩
    rw [Punctuator.byteSize_spelling]
    exact Punctuator.offset_extendGreater s.stop.rest offset
  · exact h

theorem Holds.rescanSlash (h : s.Holds text) : s.rescanSlash.Holds text := by
  unfold Scanner.rescanSlash
  split
  · rename_i isSlash
    obtain ⟨cs, stands⟩ : ∃ cs, s.start.rest = '/' :: cs := by
      rcases isSlash with is | is <;> exact ⟨_, (h.written is).2.1⟩
    exact ⟨h.start, reads_regExpLexeme stands⟩
  · exact h

theorem Holds.rescanTemplate (h : s.Holds text) : s.rescanTemplate.Holds text := by
  unfold Scanner.rescanTemplate
  split
  · rename_i isBrace
    have stands : s.start.rest = '\x7d' :: s.stop.rest := (h.written isBrace).2.1
    rw [show s.start.rest.drop 1 = s.stop.rest by rw [stands]; rfl]
    exact ⟨h.start, reads_templateLexeme false stands⟩
  · exact h

theorem Holds.reread (h : s.Holds text) (again : Rereading) : (again.apply s).Holds text := by
  cases again with
  | greater => exact h.rescanGreater
  | slash => exact h.rescanSlash
  | template => exact h.rescanTemplate

theorem Holds.faithful (h : s.Holds text) : s.Faithful text := by
  obtain ⟨before, standsAt, startsAt⟩ := h.start
  obtain ⟨token, rest, stopsAt, fits⟩ := h.reads
  change text = before ++ s.start.rest at standsAt
  change s.start.rest = token ++ s.stop.rest at rest
  have startsAt : s.start.offset = byteSize before := startsAt.trans (Nat.zero_add _)
  have stopsAt : s.stop.offset = byteSize before + byteSize token := startsAt ▸ stopsAt
  have start : dropBytes? s.start.offset text = some s.start.rest := by
    rw [startsAt, standsAt, Text.dropBytes?_byteSize]
  have size : s.stop.offset - s.start.offset = byteSize token := by
    rw [stopsAt, startsAt, Nat.add_sub_cancel_left]
  have ordered : s.start.offset ≤ s.stop.offset := by
    rw [stopsAt, startsAt]
    exact Nat.le_add_right _ _
  refine ⟨ordered, Cursor.offset_le_byteSize h.stop_before, start, ?_, token, ?_, ?_, fits⟩
  · rw [stopsAt, ← Text.byteSize_append, standsAt, rest, ← List.append_assoc,
      Text.dropBytes?_byteSize]
  · rw [slice?, if_pos ordered, start, Option.bind_some, size, rest, Text.takeBytes?_byteSize]
  · rw [tokenText, Cursor.textTo_eq rest (startsAt ▸ stopsAt)]

end Scanner

namespace Reading

/-- All that is at hand goes with the text. -/
structure Holds (text : List Char) (r : Reading) : Prop where
  scanner : r.scanner.Holds text
  saved : ∀ s ∈ r.saved, s.Holds text

variable {text : List Char} {r : Reading}

theorem holds_ofText (text : List Char) : (ofText text).Holds text :=
  ⟨Scanner.holds_ofText text, by simp [ofText]⟩

theorem Holds.ask (h : r.Holds text) (request : Request) : (r.ask request).Holds text := by
  cases request with
  | scan => exact ⟨h.scanner.scan, h.saved⟩
  | reread again => exact ⟨h.scanner.reread again, h.saved⟩
  | save => exact ⟨h.scanner, List.forall_mem_cons.mpr ⟨h.scanner, h.saved⟩⟩
  | restore index =>
    simp only [Reading.ask]
    split
    · rename_i s found
      have holds := h.saved s (List.mem_of_getElem? found)
      exact ⟨⟨holds.start, holds.reads⟩, h.saved⟩
    · exact h
  | takeErrors => exact ⟨⟨h.scanner.start, h.scanner.reads⟩, h.saved⟩

theorem Holds.askAll (h : r.Holds text) (requests : List Request) :
    (r.askAll requests).Holds text := by
  induction requests generalizing r with
  | nil => exact h
  | cons request rest ih => exact ih (h.ask request)

end Reading

/-- Whatever was asked of a scanner, its token stands between two characters of the text, and the
value of the token goes with what is written there. -/
theorem faithful_askAll (text : List Char) (requests : List Request) :
    ((Reading.ofText text).askAll requests).scanner.Faithful text :=
  ((Reading.holds_ofText text).askAll requests).scanner.faithful

end LoopCapture.Token
