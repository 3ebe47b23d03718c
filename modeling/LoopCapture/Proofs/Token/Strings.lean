import LoopCapture.Proofs.Token.Lossless

/-!
# What a string stands for

Behind its opening quote a text is made of elements: characters that are not escaped, and
backslashes with what they consume. A string is closed by the first quote that is not escaped. Where
a line feed, a carriage return or the end of the text comes before, the string ends there and is
told as an error.
-/

namespace LoopCapture.Token
open Text (Offset byteSize isLineBreak)

/-- A part of the text behind an opening quote. -/
inductive Element where
  | plain (c : Char)
  /-- A backslash and the character that it consumes. -/
  | escaped (c : Char)
  /-- A backslash, a carriage return and the line feed after it. -/
  | escapedCrLf
  | backslash
deriving DecidableEq

def elements : List Char → List Element
  | [] => []
  | ['\\'] => [.backslash]
  | '\\' :: '\r' :: '\n' :: cs => .escapedCrLf :: elements cs
  | '\\' :: c :: cs => .escaped c :: elements cs
  | c :: cs => .plain c :: elements cs

/-- The letters that stand for control characters behind a backslash. -/
def controls : List (Char × Char) :=
  [('n', '\n'), ('t', '\t'), ('r', '\r'), ('b', '\x08'), ('f', '\x0c'), ('v', '\x0b'),
   ('0', '\x00')]

namespace Element

def text : Element → List Char
  | plain c => [c]
  | escaped c => ['\\', c]
  | escapedCrLf => ['\\', '\r', '\n']
  | backslash => ['\\']

def value : Element → List Char
  | plain c => [c]
  | escaped c =>
    match controls.lookup c with
    | some control => [control]
    | none => if isLineBreak c then [] else [c]
  | escapedCrLf => []
  | backslash => []

/-- The element ends a string with the given quote. -/
def endsString (quote : Char) : Element → Bool
  | plain c => c == quote || c == '\n' || c == '\r'
  | _ => false

end Element

/-- The elements up to the first one that ends the string. -/
def stringBody (quote : Char) (cs : List Char) : List Element :=
  (elements cs).takeWhile fun e => !e.endsString quote

/-- The elements from the first one on that ends the string. -/
def afterBody (quote : Char) (cs : List Char) : List Element :=
  (elements cs).dropWhile fun e => !e.endsString quote

/-- A quote that is not escaped comes before any line feed or carriage return that is not escaped
and before the end of the text. -/
def IsClosed (quote : Char) (cs : List Char) : Prop :=
  (afterBody quote cs).head? = some (.plain quote)

instance (quote : Char) (cs : List Char) : Decidable (IsClosed quote cs) :=
  inferInstanceAs (Decidable ((afterBody quote cs).head? = some (.plain quote)))

/-- The token that a scanner comes to is the string that begins with the quote at the cursor, and it
is told what was wrong with it. -/
structure ReadsString (s s' : Scanner) (c : Cursor) (quote : Char) (cs : List Char) : Prop where
  start : s'.start = c
  kind : s'.kind = .string
  value : s'.value = String.ofList ((stringBody quote cs).flatMap Element.value)
  closed : IsClosed quote cs →
    s'.stop.rest = (afterBody quote cs).tail.flatMap Element.text ∧ s'.stop.offset =
      c.offset + byteSize (quote :: (stringBody quote cs).flatMap Element.text ++ [quote]) ∧
      s'.errors = s.errors
  unclosed : ¬ IsClosed quote cs →
    s'.stop.rest = (afterBody quote cs).flatMap Element.text ∧
      s'.stop.offset = c.offset + byteSize (quote :: (stringBody quote cs).flatMap Element.text) ∧
      ∃ error, s'.errors = s.errors.push error ∧ error.fault.code = 1002 ∧
        error.start = c.offset ∧ error.start + error.length = s'.stop.offset

theorem elements_plain {c : Char} (ne : c ≠ '\\') (cs : List Char) :
    elements (c :: cs) = .plain c :: elements cs := by
  rw [elements] <;> simp_all

theorem elements_escaped {c : Char} {cs : List Char} (lone : c = '\r' → cs.head? ≠ some '\n') :
    elements ('\\' :: c :: cs) = .escaped c :: elements cs := by
  rw [elements]
  rintro rest rfl rfl
  exact lone rfl rfl

/-- Nothing of a text is lost when it is taken apart. -/
theorem flatMap_text_elements (cs : List Char) : (elements cs).flatMap Element.text = cs := by
  fun_induction elements cs <;> simp_all [Element.text]

theorem flatMap_text_stringBody (quote : Char) (cs : List Char) :
    (stringBody quote cs).flatMap Element.text ++
      (afterBody quote cs).flatMap Element.text = cs := by
  rw [← List.flatMap_append, stringBody, afterBody, List.takeWhile_append_dropWhile,
    flatMap_text_elements]

/-- An element that does not end the string is inside of it. -/
theorem stringBody_cons {quote : Char} {e : Element} {cs rest : List Char}
    (first : elements cs = e :: elements rest) (goesOn : e.endsString quote = false) :
    stringBody quote cs = e :: stringBody quote rest ∧
      afterBody quote cs = afterBody quote rest := by
  simp [stringBody, afterBody, first, goesOn]

/-- Nothing is inside of a string that ends at once. -/
theorem stringBody_of_ends (quote : Char) {c : Char} (cs : List Char) (ne : c ≠ '\\')
    (ends : (Element.plain c).endsString quote = true) :
    stringBody quote (c :: cs) = [] ∧ afterBody quote (c :: cs) = .plain c :: elements cs := by
  simp [stringBody, afterBody, elements_plain ne, ends]

/-- What a backslash makes of the character behind it. -/
theorem value_escaped (c : Char) : (Element.escaped c).value = (unescape? c).toList := by
  fun_cases unescape? c
  case case8 | case9 =>
    have other : controls.lookup c = none := List.lookup_eq_none_iff.mpr (by simp_all [controls])
    rw [Element.value, other]
    simp [*]
  all_goals rfl

/-- What was read, behind characters that were read before, is the string up to where it ends. -/
structure Delimited.IsString (d : Delimited) (quote : Char) (reversed cs : List Char) : Prop where
  value : d.reversed.reverse = reversed.reverse ++ (stringBody quote cs).flatMap Element.value
  closed : d.closed = decide (IsClosed quote cs)
  rest : d.after.rest =
    (if IsClosed quote cs then (afterBody quote cs).tail else afterBody quote cs).flatMap
      Element.text

theorem Delimited.IsString.cons {d : Delimited} {quote : Char} {e : Element}
    {reversed cs rest : List Char} (h : d.IsString quote (e.value.reverse ++ reversed) rest)
    (first : elements cs = e :: elements rest) (goesOn : e.endsString quote = false) :
    d.IsString quote reversed cs := by
  obtain ⟨within, beyond⟩ := stringBody_cons first goesOn
  have same : IsClosed quote cs ↔ IsClosed quote rest := by rw [IsClosed, IsClosed, beyond]
  refine ⟨?_, ?_, ?_⟩
  · rw [h.value, within, List.flatMap_cons, List.reverse_append, List.reverse_reverse,
      List.append_assoc]
  · simp only [h.closed, same]
  · simp only [h.rest, same, beyond]

theorem isString_readString {quote : Char} (ne : quote ≠ '\\') (reversed : List Char)
    (offset : Offset) (cs : List Char) :
    (readString quote reversed offset cs).IsString quote reversed cs := by
  have plain {c : Char} {cs : List Char} (noEnd : c = '\\' → cs = [] → False)
      (noEscape : ∀ e rest, c = '\\' → cs = e :: rest → False) : c ≠ '\\' := fun is =>
    match cs with
    | [] => noEnd is rfl
    | e :: rest => noEscape e rest is rfl
  fun_induction readString quote reversed offset cs with
  | case1 | case2 =>
    constructor <;> simp [IsClosed, stringBody, afterBody, elements, Element.endsString,
      Element.value]
  | case3 reversed offset cs ih => exact .cons (e := .escapedCrLf) ih rfl rfl
  | case4 reversed offset c cs lone ih =>
    refine .cons (e := .escaped c) ?_ (elements_escaped fun isCr isLf => ?_) rfl
    · rw [value_escaped]
      cases unescaped : unescape? c <;> simpa [unescaped] using ih
    · obtain ⟨rest, rfl⟩ := List.head?_eq_some_iff.mp isLf
      exact lone rest isCr rfl
  | case5 reversed offset c cs _ _ _ isQuote =>
    obtain rfl := eq_of_beq isQuote
    obtain ⟨within, beyond⟩ := stringBody_of_ends c cs ne (by simp [Element.endsString])
    exact ⟨by simp [within], by simp [IsClosed, beyond],
      by simp [IsClosed, beyond, flatMap_text_elements]⟩
  | case6 reversed offset c cs noEnd _ noEscape noQuote breaks =>
    obtain ⟨within, beyond⟩ := stringBody_of_ends quote cs (plain noEnd noEscape)
      (by rw [Element.endsString, Bool.or_assoc, breaks, Bool.or_true])
    have whole := flatMap_text_elements (c :: cs)
    rw [elements_plain (plain noEnd noEscape)] at whole
    have other : c ≠ quote := by simpa using noQuote
    exact ⟨by simp [within], by simp [IsClosed, beyond, other],
      by simp [IsClosed, beyond, other, whole]⟩
  | case7 reversed offset c cs noEnd _ noEscape noQuote noBreak ih =>
    exact .cons (e := .plain c) ih (elements_plain (plain noEnd noEscape) cs)
      (by simp_all [Element.endsString])

/-- A string is passed up to its end, with its closing quote if it has one. -/
theorem offset_readString {quote : Char} (size : quote.utf8Size = 1) (ne : quote ≠ '\\')
    (offset : Offset) (cs : List Char) :
    (readString quote [] (offset + 1) cs).after.offset = offset + byteSize (quote ::
      (stringBody quote cs).flatMap Element.text ++ if IsClosed quote cs then [quote] else []) := by
  obtain ⟨passed, split, stop⟩ := before_readString size [] (offset + 1) cs
  change cs = passed ++ _ at split
  rw [(isString_readString ne [] (offset + 1) cs).rest] at split
  suffices same : passed = (stringBody quote cs).flatMap Element.text ++
      if IsClosed quote cs then [quote] else [] by
    rw [stop, same, List.cons_append, byteSize, size, Nat.add_assoc]
  have whole := flatMap_text_stringBody quote cs
  by_cases closed : IsClosed quote cs
  · rw [if_pos closed] at split ⊢
    obtain ⟨beyond, is⟩ := List.head?_eq_some_iff.mp closed
    rw [is, List.tail_cons] at split
    rw [is, List.flatMap_cons, ← List.append_assoc] at whole
    exact List.append_cancel_right (split.symm.trans whole.symm)
  · rw [if_neg closed] at split ⊢
    rw [List.append_nil]
    exact List.append_cancel_right (split.symm.trans whole.symm)

/-- Only at the end of the text is a comment not closed. -/
theorem error_skipTrivia {c : Cursor} {broken : Bool}
    (more : (skipTrivia c broken).cursor.rest ≠ []) :
    (skipTrivia c broken).error = none := by
  fun_induction skipTrivia c broken with
  | case1 | case8 => rfl
  | case2 _ _ _ _ ih => exact ih more
  | case3 _ _ _ _ _ _ _ ih => exact ih more
  | case4 c => exact absurd (by rw [skipAll_eq]) more
  | case5 _ _ _ _ _ _ _ _ ih | case6 _ _ _ _ _ _ _ _ _ ih => exact ih more
  | case7 _ _ _ _ _ _ _ _ _ _ ih => exact ih more

/-- A token is read where the trivia in front of it end, and nothing was wrong with these. -/
theorem Scanner.scan_eq_become {s : Scanner} {x : Char} {cs : List Char}
    (stands : (skipTrivia s.stop false).cursor.rest = x :: cs) :
    s.scan = become { s with lineBreak := (skipTrivia s.stop false).lineBreak }
      (skipTrivia s.stop false).cursor (lexeme (skipTrivia s.stop false).cursor x cs) := by
  have quiet : (skipTrivia s.stop false).error = none := error_skipTrivia (by simp [stands])
  unfold scan
  simp only [quiet, note]
  split
  · simp_all
  · rename_i y ys stands'
    obtain ⟨rfl, rfl⟩ : y = x ∧ ys = cs := by simpa [stands] using stands'.symm
    rfl

/-- Wherever a quote is met, the string behind it is read up to where it ends, each of its elements
is replaced by what it stands for, and an error is told exactly if it is not closed. -/
theorem readsString_scan (s : Scanner) {quote : Char} {cs : List Char}
    (isQuote : quote = '"' ∨ quote = '\'')
    (stands : (skipTrivia s.stop false).cursor.rest = quote :: cs) :
    ReadsString s s.scan (skipTrivia s.stop false).cursor quote cs := by
  have size : quote.utf8Size = 1 := by rcases isQuote with rfl | rfl <;> rfl
  have ne : quote ≠ '\\' := by rcases isQuote with rfl | rfl <;> decide
  rw [Scanner.scan_eq_become stands, lexeme, if_pos (by simpa using isQuote)]
  generalize (skipTrivia s.stop false).cursor = c
  have reads := isString_readString ne [] (c.offset + 1) cs
  have stop := offset_readString size ne c.offset cs
  refine ⟨rfl, rfl, congrArg String.ofList reads.value, fun closed => ?_, fun unclosed => ?_⟩
  · rw [if_pos closed] at stop
    have told : (readString quote [] (c.offset + 1) cs).closed = true := by
      simp [reads.closed, closed]
    refine ⟨reads.rest.trans (by rw [if_pos closed]), stop, ?_⟩
    simp [Scanner.become, Scanner.note, stringLexeme, told]
  · rw [if_neg unclosed, List.append_nil] at stop
    have told : (readString quote [] (c.offset + 1) cs).closed = false := by
      simp [reads.closed, unclosed]
    refine ⟨reads.rest.trans (by rw [if_neg unclosed]), stop, ?_⟩
    have longer : c.offset ≤ (readString quote [] (c.offset + 1) cs).after.offset := by
      rw [stop]
      exact Nat.le_add_right _ _
    refine ⟨⟨.unterminatedString, c.offset, _⟩, ?_, rfl, rfl, Nat.add_sub_cancel' longer⟩
    simp [Scanner.become, Scanner.note, stringLexeme, told]

/-- A string over two lines with a quote in it, behind a blank: `'a\'`, the end of a line, `b'`. -/
theorem readsString_continued :
    (skipTrivia ⟨0, " 'a\\'\\\r\nb';".toList⟩ false).cursor.rest = "'a\\'\\\r\nb';".toList ∧
      IsClosed '\'' "a\\'\\\r\nb';".toList ∧
      (Scanner.ofText " 'a\\'\\\r\nb';".toList).scan.value = "a'b" ∧
      (Scanner.ofText " 'a\\'\\\r\nb';".toList).scan.stop.rest = [';'] ∧
      (Scanner.ofText " 'a\\'\\\r\nb';".toList).scan.errors = #[] := by
  have stands :
      (skipTrivia ⟨0, " 'a\\'\\\r\nb';".toList⟩ false).cursor.rest = "'a\\'\\\r\nb';".toList := by
    decide +kernel
  have closed : IsClosed '\'' "a\\'\\\r\nb';".toList := by decide
  have reads := readsString_scan (.ofText " 'a\\'\\\r\nb';".toList) (.inr rfl) stands
  exact ⟨stands, closed, reads.value, (reads.closed closed).1, (reads.closed closed).2.2⟩

end LoopCapture.Token
