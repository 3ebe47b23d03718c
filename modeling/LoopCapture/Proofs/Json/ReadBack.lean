import LoopCapture.Json.Reader

/-!
# Printed values are read back

The reader makes of a printed text the value it was printed from, as long as the integers in it are
numbers of 64 bits, no fraction occurs, and no more levels are opened than the reader allows. Blanks
are skipped before a token is read, so each reader is followed from a text with a known first token.
-/

namespace LoopCapture.Json

/-- The value opens at most so many levels, has integers of 64 bits only, and no fractions. -/
inductive Value.Fits : Nat → Value → Prop where
  | null {n : Nat} : Fits n .null
  | boolean {n : Nat} (b : Bool) : Fits n (.boolean b)
  | integer {n : Nat} {i : Int} (low : -(maxNegative : Int) ≤ i) (high : i ≤ maxNatural) :
      Fits n (.integer i)
  | string {n : Nat} (s : String) : Fits n (.string s)
  | array {n : Nat} {elements : List Value} (each : ∀ e ∈ elements, Fits n e) :
      Fits (n + 1) (.array elements)
  | object {n : Nat} {members : List (String × Value)} (each : ∀ m ∈ members, Fits n m.2) :
      Fits (n + 1) (.object members)

/-- No number goes on here. -/
def Ends (rest : List Char) : Prop :=
  ∀ c ∈ rest.head?, c.isDigit = false ∧ c ≠ '.' ∧ c ≠ 'e' ∧ c ≠ 'E'

theorem ends_cons {c : Char} {rest : List Char}
    (other : c.isDigit = false ∧ c ≠ '.' ∧ c ≠ 'e' ∧ c ≠ 'E') : Ends (c :: rest) := by
  simpa [Ends] using other

variable {rest : List Char}

theorem digit?_of_isDigit {c : Char} (digit : c.isDigit) : digit? c = some (c.toNat - '0'.toNat) :=
  if_pos digit

theorem Ends.head?_bind_digit? (ends : Ends rest) : rest.head?.bind digit? = none := by
  cases rest with
  | nil => rfl
  | cons c cs => simp [digit?, (ends c rfl).1]

theorem Ends.dropWhile_isDigit (ends : Ends rest) : rest.dropWhile Char.isDigit = rest := by
  cases rest with
  | nil => rfl
  | cons c cs => simp [(ends c rfl).1]

theorem Ends.takeWhile_isDigit (ends : Ends rest) : rest.takeWhile Char.isDigit = [] := by
  cases rest with
  | nil => rfl
  | cons c cs => simp [(ends c rfl).1]

theorem le_ofDigitChars (n : Nat) (digits : List Char) : n ≤ Nat.ofDigitChars 10 digits n := by
  rw [Nat.ofDigitChars_eq_ofDigitChars_zero]
  exact Nat.le_add_right_of_le (Nat.le_mul_of_pos_left n (Nat.pow_pos (by decide)))

/-- Digits are taken to the last one when the number they write is within the limit. -/
theorem takeDigits_append {limit n : Nat} {digits : List Char} (areDigits : ∀ c ∈ digits, c.isDigit)
    (ends : Ends rest) (count : Nat) (small : Nat.ofDigitChars 10 digits n ≤ limit) :
    takeDigits limit n count (digits ++ rest) =
      (Nat.ofDigitChars 10 digits n, count + digits.length, rest) := by
  induction digits generalizing n count with
  | nil =>
    cases rest with
    | nil => rfl
    | cons c cs => simp [takeDigits, digit?, (ends c rfl).1]
  | cons c cs ih =>
    obtain ⟨digit, digits⟩ := List.forall_mem_cons.1 areDigits
    rw [Nat.ofDigitChars_cons, Nat.mul_comm] at small ⊢
    have within := Nat.le_trans (le_ofDigitChars _ cs) small
    simp only [List.cons_append, takeDigits, digit?_of_isDigit digit, if_neg (Nat.not_lt.2 within),
      ih digits (count + 1) small, List.length_cons, Nat.add_right_comm, Nat.add_assoc]

theorem head?_toDigits_ne_zero {n : Nat} (pos : 0 < n) : (Nat.toDigits 10 n).head? ≠ some '0' := by
  induction n using Nat.strongRecOn with
  | _ n ih =>
    rw [Nat.toDigits_eq_if (by decide)]
    split
    · simpa using Nat.pos_iff_ne_zero.1 pos
    · have front : (Nat.toDigits 10 (n / 10)).head? ≠ some '0' := ih _ (by omega) (by omega)
      rwa [List.head?_append, Option.or_of_isSome (by simp [Nat.toDigits_ne_nil])]

theorem readNumber_toDigits {n : Nat} (small : n ≤ maxNatural) (ends : Ends rest)
    (isNegative : Bool) :
    readNumber isNegative (Nat.toDigits 10 n ++ rest) = .ok (wholeNumber isNegative n, rest) := by
  have areDigits : ∀ c ∈ Nat.toDigits 10 n, c.isDigit :=
    fun c mem => Nat.isDigit_of_mem_toDigits (by decide) (by decide) mem
  have number : Nat.ofDigitChars 10 (Nat.toDigits 10 n) 0 = n := Nat.ofDigitChars_ten_toDigits
  have taken := takeDigits_append areDigits ends 0 (Nat.le_trans (Nat.le_of_eq number) small)
  rw [number] at taken
  have single : ∀ tail, Nat.toDigits 10 n = '0' :: tail → tail = [] := by
    intro tail zero
    obtain rfl | pos := Nat.eq_zero_or_pos n
    · simpa using zero.symm
    · exact absurd (congrArg List.head? zero) (head?_toDigits_ne_zero pos)
  cases written : Nat.toDigits 10 n with
  | nil => exact absurd written Nat.toDigits_ne_nil
  | cons c tail =>
    rw [written] at taken areDigits
    have noZero : ¬(c = '0' ∧ ((tail ++ rest).head?.bind digit?).isSome) := by
      rintro ⟨rfl, more⟩
      simp [single tail written, ends.head?_bind_digit?] at more
    have after : ∀ tail, rest ≠ '.' :: tail ∧ rest ≠ 'e' :: tail ∧ rest ≠ 'E' :: tail := by
      rintro tail
      refine ⟨?_, ?_, ?_⟩ <;> rintro rfl <;> simp [Ends] at ends
    simp only [List.cons_append] at taken ⊢
    rw [readNumber]
    simp only [digit?_of_isDigit (areDigits c List.mem_cons_self), Option.isNone_some,
      Bool.false_eq_true, if_false, taken, ends.takeWhile_isDigit, ends.dropWhile_isDigit]
    rw [if_neg (by simpa using noZero)]
    split
    · exact absurd rfl (after _).1
    · exact absurd rfl (after _).2.1
    · exact absurd rfl (after _).2.2
    · rfl

def controlDigits (n : Nat) : List Char :=
  List.replicate (4 - (Nat.toDigits 16 n).length) '0' ++ Nat.toDigits 16 n

theorem hexUnit_controlDigits : ∀ n < 32, (controlDigits n).length = 4 ∧
    (controlDigits n).mapM hexDigit? = some [0, 0, n / 16, n % 16] := by
  decide

theorem numberedChar_controlDigits {c : Char} (control : c.toNat < 32) (rest : List Char) :
    numberedChar (controlDigits c.toNat ++ rest) = .ok (c, 4) := by
  obtain ⟨four, digits⟩ := hexUnit_controlDigits c.toNat control
  have unit : hexUnit (controlDigits c.toNat ++ rest) = .ok c.toNat := by
    rw [hexUnit, List.take_left' four, digits]
    simp only [Nat.zero_mul, Nat.zero_add, Nat.div_add_mod']
  have high : ¬(0xDC00 ≤ c.toNat ∧ c.toNat ≤ 0xDFFF) := by omega
  have low : c.toNat < 0xD800 ∨ 0xDBFF < c.toNat := by omega
  simp [numberedChar, unit, high, low, Char.ofNat_toNat, bind, Except.bind, pure, Except.pure]

theorem escapeAt_controlEscape {c : Char} (control : c.toNat < 32) (rest : List Char) :
    escapeAt ('u' :: controlDigits c.toNat ++ rest) = .ok (c, 5) := by
  simp [escapeAt, numberedChar_controlDigits control, Except.map]

theorem stringTail_escapedChar (c : Char) (rest : List Char) :
    stringTail (escapedChar c ++ rest) =
      (stringTail rest).map fun (text, after) => (c :: text, after) := by
  unfold escapedChar
  split
  case h_8 quote backslash _ _ _ _ _ =>
    split
    case isTrue control =>
      rw [show controlEscape c = '\\' :: 'u' :: controlDigits c.toNat from rfl, List.cons_append,
        stringTail, if_neg (by decide), if_pos rfl, escapeAt_controlEscape control]
      simp [List.drop_left' (hexUnit_controlDigits c.toNat control).1]
    case isFalse other =>
      rw [List.singleton_append, stringTail, if_neg quote, if_neg backslash, if_neg other]
  all_goals
    rw [List.cons_append, stringTail]
    simp [escapeAt]

/-- What a string literal says is read to its closing quote. -/
theorem stringTail_escaped (text rest : List Char) :
    stringTail (text.flatMap escapedChar ++ '"' :: rest) = .ok (text, rest) := by
  induction text with
  | nil => simp [stringTail]
  | cons c cs ih => rw [List.flatMap_cons, List.append_assoc, stringTail_escapedChar, ih]; rfl

namespace Reader
variable {α β : Type} {s t : List Char} {c : Char}

def Takes (r : Reader α) (text : List Char) (a : α) (rest : List Char) : Prop :=
  StateT.run r text = .ok (a, rest)

theorem takes_pure (a : α) : Takes (pure a) s a s := rfl

theorem Takes.bind_iff {r : Reader α} {a : α} (takes : r.Takes s a t) {f : α → Reader β} {b : β} :
    Takes (r >>= f) s b rest ↔ (f a).Takes t b rest := by
  unfold Takes at *
  rw [StateT.run_bind, takes]
  rfl

theorem takes_get : Takes get s s s := rfl

theorem takes_skip : skip.Takes (c :: rest) () rest := rfl

theorem takes_peek? (comes : s.dropWhile isSpace = rest) : peek?.Takes s rest.head? rest := by
  rw [← comes]; rfl

theorem takes_peek (comes : s.dropWhile isSpace = c :: rest) : peek.Takes s c (c :: rest) := by
  rw [peek, (takes_peek? comes).bind_iff]
  exact takes_pure c

theorem takes_close (comes : s.dropWhile isSpace = c :: rest) : (close c).Takes s () rest := by
  rw [close, (takes_peek comes).bind_iff]
  simpa using takes_skip

theorem takes_colon (comes : s.dropWhile isSpace = ':' :: rest) : colon.Takes s () rest :=
  takes_close comes

theorem takes_finish (comes : s.dropWhile isSpace = []) : finish.Takes s () [] := by
  rw [finish, (takes_peek? comes).bind_iff]
  exact takes_pure ()

theorem takes_stringHere (text : String) (rest : List Char) :
    stringHere.Takes ('"' :: text.toList.flatMap escapedChar ++ '"' :: rest) text rest := by
  have content : (take stringTail).Takes (text.toList.flatMap escapedChar ++ '"' :: rest)
      text.toList rest := stringTail_escaped text.toList rest
  rw [stringHere, List.cons_append, takes_skip.bind_iff, content.bind_iff, String.ofList_toList]
  exact takes_pure text

theorem takes_hasElement_end {isFirst : Bool} (comes : s.dropWhile isSpace = ']' :: rest) :
    (hasElement isFirst).Takes s false (']' :: rest) := by
  rw [hasElement, (takes_peek comes).bind_iff]
  exact takes_pure false

theorem takes_hasElement_first (comes : s.dropWhile isSpace = c :: rest) (more : c ≠ ']') :
    (hasElement true).Takes s true (c :: rest) := by
  rw [hasElement, (takes_peek comes).bind_iff]
  simpa [more] using takes_pure true

theorem takes_hasElement_next (comes : s.dropWhile isSpace = c :: rest) (more : c ≠ ']') :
    (hasElement false).Takes (',' :: s) true (c :: rest) := by
  have comma : peek.Takes (',' :: s) ',' (',' :: s) := takes_peek rfl
  rw [hasElement, comma.bind_iff]
  simpa [comma.bind_iff, takes_skip.bind_iff, (takes_peek comes).bind_iff, more]
    using takes_pure true

theorem takes_hasMember_end {isFirst : Bool} (comes : s.dropWhile isSpace = '\x7d' :: rest) :
    (hasMember isFirst).Takes s false ('\x7d' :: rest) := by
  rw [hasMember, (takes_peek comes).bind_iff]
  exact takes_pure false

theorem takes_hasMember_first (comes : s.dropWhile isSpace = '"' :: rest) :
    (hasMember true).Takes s true ('"' :: rest) := by
  have quote : peek.Takes ('"' :: rest) '"' ('"' :: rest) := takes_peek rfl
  rw [hasMember, (takes_peek comes).bind_iff]
  simpa [quote.bind_iff] using takes_pure true

theorem takes_hasMember_next (comes : s.dropWhile isSpace = '"' :: rest) :
    (hasMember false).Takes (',' :: s) true ('"' :: rest) := by
  have comma : peek.Takes (',' :: s) ',' (',' :: s) := takes_peek rfl
  rw [hasMember, comma.bind_iff]
  simpa [comma.bind_iff, takes_skip.bind_iff, (takes_peek comes).bind_iff] using takes_pure true

theorem takes_nested {inside : Nat → Reader α} {n : Nat} {mark : Char} {a : α}
    (takes : (inside n).Takes s a t) (comes : t.dropWhile isSpace = mark :: rest) :
    (nested (n + 1) mark inside).Takes (c :: s) a rest := by
  rw [nested, takes_skip.bind_iff, takes.bind_iff, (takes_close comes).bind_iff]
  exact takes_pure a

/-- The reader takes the value wherever its text comes next. -/
def Reads (r : Reader α) (text : String) (a : α) : Prop :=
  ∀ s rest, Ends rest → s.dropWhile isSpace = text.toList ++ rest → r.Takes s a rest

/-- The text begins a value and so is not taken for the end of an array. -/
def Leads (text : String) : Prop :=
  ∃ c cs, text.toList = c :: cs ∧ isSpace c = false ∧ c ≠ ']'

theorem dropWhile_lineStart (level : Nat) (notSpace : isSpace c = false) (rest : List Char) :
    ((lineStart level).toList ++ c :: rest).dropWhile isSpace = c :: rest := by
  have newline : ("\n" : String).toList = ['\n'] := rfl
  have skipped : isSpace '\n' = true := rfl
  have skipped' : isSpace ' ' = true := rfl
  simp [lineStart, newline, skipped, skipped', notSpace]

theorem ends_lineStart (level : Nat) (rest : List Char) :
    Ends ((lineStart level).toList ++ rest) := by
  have newline : ("\n" : String).toList = ['\n'] := rfl
  simp only [lineStart, String.toList_append, newline, List.cons_append]
  exact ends_cons (by decide)

section Elements
variable {level : Nat} {r : Reader Value} {tail : List Char}

theorem toList_elementsText (e : Value) (es : List Value) :
    (elementsText level (e :: es)).toList =
      ',' :: ((lineStart level).toList ++
        ((e.textAt level).toList ++ (elementsText level es).toList)) := by
  have comma : ("," : String).toList = [','] := rfl
  simp [elementsText, comma]

theorem ends_elementsText (es : List Value) (ends : Ends tail) :
    Ends ((elementsText level es).toList ++ tail) := by
  cases es with
  | nil => simpa [elementsText] using ends
  | cons e es =>
    rw [toList_elementsText]
    exact ends_cons (by decide)

theorem Leads.dropWhile {text : String} (leads : Leads text) (t : List Char) :
    (text.toList ++ t).dropWhile isSpace = text.toList ++ t := by
  obtain ⟨c, cs, begins, notSpace, -⟩ := leads
  simp [begins, notSpace]

theorem takes_elementsUpTo_cons {e : Value} {es : List Value} {text : String} {k : Nat}
    {isFirst : Bool} {left : List Char} (has : (hasElement isFirst).Takes s true (text.toList ++ t))
    (leads : Leads text) (reads : Reads r text e) (ends : Ends t)
    (later : (elementsUpTo r k false).Takes t es left) :
    (elementsUpTo r (k + 1) isFirst).Takes s (e :: es) left := by
  rw [elementsUpTo, has.bind_iff, if_pos rfl, (reads _ t ends (leads.dropWhile t)).bind_iff,
    later.bind_iff]
  exact takes_pure _

theorem takes_elementsUpTo {es : List Value} (ends : Ends tail)
    (comes : tail.dropWhile isSpace = ']' :: rest)
    (each : ∀ e ∈ es, Leads (e.textAt level) ∧ Reads r (e.textAt level) e) {k : Nat}
    (enough : es.length ≤ k) :
    ∃ left, (elementsUpTo r k false).Takes ((elementsText level es).toList ++ tail) es left ∧
      left.dropWhile isSpace = ']' :: rest := by
  induction es generalizing k with
  | nil =>
    cases k with
    | zero => exact ⟨_, takes_pure _, comes⟩
    | succ k =>
      refine ⟨']' :: rest, ?_, rfl⟩
      have comes' : ((elementsText level []).toList ++ tail).dropWhile isSpace = ']' :: rest :=
        comes
      rw [elementsUpTo, (takes_hasElement_end comes').bind_iff]
      exact takes_pure []
  | cons e es ih =>
    obtain ⟨k, rfl⟩ : ∃ k', k = k' + 1 := ⟨k - 1, by rw [List.length_cons] at enough; omega⟩
    obtain ⟨⟨leads, reads⟩, each⟩ := List.forall_mem_cons.1 each
    obtain ⟨left, takes, stops⟩ := ih each (by simpa using enough)
    refine ⟨left, takes_elementsUpTo_cons ?_ leads reads (ends_elementsText es ends) takes, stops⟩
    obtain ⟨c, cs, begins, notSpace, more⟩ := leads
    rw [toList_elementsText, List.cons_append, List.append_assoc, List.append_assoc, begins]
    exact takes_hasElement_next (dropWhile_lineStart level notSpace _) more

theorem length_le_elementsText (es : List Value) :
    es.length ≤ (elementsText level es).toList.length := by
  induction es with
  | nil => exact Nat.zero_le _
  | cons e es ih =>
    simp only [toList_elementsText, List.length_append, List.length_cons]
    omega

theorem takes_elements {e : Value} {es : List Value} (ends : Ends tail)
    (comes : tail.dropWhile isSpace = ']' :: rest)
    (each : ∀ x ∈ e :: es, Leads (x.textAt level) ∧ Reads r (x.textAt level) x)
    (first : s.dropWhile isSpace =
      (e.textAt level).toList ++ ((elementsText level es).toList ++ tail)) :
    ∃ left, (elements r).Takes s (e :: es) left ∧ left.dropWhile isSpace = ']' :: rest := by
  obtain ⟨⟨leads, reads⟩, each⟩ := List.forall_mem_cons.1 each
  have enough : es.length + 1 ≤ s.length := by
    have printed : es.length ≤ (elementsText level es).toList.length := length_le_elementsText es
    have := (List.dropWhile_sublist isSpace (l := s)).length_le
    obtain ⟨c, cs, begins, -, -⟩ := leads
    simp only [first, begins, List.length_append, List.length_cons] at this
    omega
  obtain ⟨k, enoughLater⟩ : ∃ k, s.length = k + 1 := ⟨s.length - 1, by omega⟩
  obtain ⟨left, takes, stops⟩ := takes_elementsUpTo ends comes each (k := k) (by omega)
  refine ⟨left, ?_, stops⟩
  have has : (hasElement true).Takes s true
      ((e.textAt level).toList ++ ((elementsText level es).toList ++ tail)) := by
    obtain ⟨c, cs, begins, -, more⟩ := leads
    rw [begins] at first ⊢
    exact takes_hasElement_first first more
  rw [elements, takes_get.bind_iff, enoughLater]
  exact takes_elementsUpTo_cons has leads reads (ends_elementsText es ends) takes

theorem takes_elements_nil : (elements r).Takes (']' :: rest) [] (']' :: rest) := by
  have has : (hasElement true).Takes (']' :: rest) false (']' :: rest) := takes_hasElement_end rfl
  rw [elements, takes_get.bind_iff, List.length_cons, elementsUpTo, has.bind_iff]
  exact takes_pure []

end Elements

section Members
variable {level : Nat} {n : Nat} {tail : List Char}

def memberOf (n : Nat) (before : List (String × Value)) (key : String) :
    Reader (List (String × Value)) := do
  colon
  return (key, ← value n) :: before

theorem value_succ (n : Nat) : value (n + 1) = (do
    match ← peek with
    | '[' => return .array (← nested (n + 1) ']' fun _ => elements (value n))
    | '\x7b' => return .object (← nested (n + 1) '\x7d' fun _ => members (memberOf n) []).reverse
    | _ => scalar) := rfl

theorem takes_array {es : List Value} (comes : s.dropWhile isSpace = '[' :: t)
    {left : List Char} (takes : (elements (value n)).Takes t es left)
    (stops : left.dropWhile isSpace = ']' :: rest) : (value (n + 1)).Takes s (.array es) rest := by
  have whole : (nested (n + 1) ']' fun _ => elements (value n)).Takes ('[' :: t) es rest :=
    takes_nested takes stops
  rw [value_succ, (takes_peek comes).bind_iff]
  exact whole.bind_iff.2 (takes_pure _)

theorem takes_object {ms : List (String × Value)} (comes : s.dropWhile isSpace = '\x7b' :: t)
    {left : List Char} (takes : (members (memberOf n) []).Takes t ms.reverse left)
    (stops : left.dropWhile isSpace = '\x7d' :: rest) :
    (value (n + 1)).Takes s (.object ms) rest := by
  have whole : (nested (n + 1) '\x7d' fun _ => members (memberOf n) []).Takes ('\x7b' :: t)
      ms.reverse rest := takes_nested takes stops
  rw [value_succ, (takes_peek comes).bind_iff]
  have reversed : Takes (pure (Value.object ms.reverse.reverse)) rest (.object ms) rest := by
    rw [List.reverse_reverse]
    exact takes_pure _
  exact whole.bind_iff.2 reversed

def memberText (level : Nat) (m : String × Value) : String :=
  escaped m.1 ++ ": " ++ m.2.textAt level

theorem toList_memberText (level : Nat) (m : String × Value) (t : List Char) :
    (memberText level m).toList ++ t = '"' :: m.1.toList.flatMap escapedChar ++
      '"' :: ':' :: ' ' :: ((m.2.textAt level).toList ++ t) := by
  have colon : (": " : String).toList = [':', ' '] := rfl
  simp [memberText, escaped, colon]

theorem toList_membersText (level : Nat) (m : String × Value) (ms : List (String × Value)) :
    (membersText level (m :: ms)).toList =
      ',' :: ((lineStart level).toList ++
        ((memberText level m).toList ++ (membersText level ms).toList)) := by
  have comma : ("," : String).toList = [','] := rfl
  simp [membersText, memberText, comma]

theorem ends_membersText (ms : List (String × Value)) (ends : Ends tail) :
    Ends ((membersText level ms).toList ++ tail) := by
  cases ms with
  | nil => simpa [membersText] using ends
  | cons m ms =>
    rw [toList_membersText]
    exact ends_cons (by decide)

theorem takes_membersUpTo_cons {m : String × Value} {before after : List (String × Value)} {k : Nat}
    {isFirst : Bool} {left : List Char}
    (has : (hasMember isFirst).Takes s true ((memberText level m).toList ++ t))
    (leads : Leads (m.2.textAt level)) (reads : Reads (value n) (m.2.textAt level) m.2)
    (ends : Ends t)
    (later : (membersUpTo (memberOf n) k false (m :: before)).Takes t after left) :
    (membersUpTo (memberOf n) (k + 1) isFirst before).Takes s after left := by
  rw [toList_memberText] at has
  have skipped : (' ' :: ((m.2.textAt level).toList ++ t)).dropWhile isSpace =
      (m.2.textAt level).toList ++ t := leads.dropWhile t
  have member : (memberOf n before m.1).Takes (':' :: ' ' :: ((m.2.textAt level).toList ++ t))
      (m :: before) t := by
    rw [memberOf, (takes_colon rfl).bind_iff, (reads _ t ends skipped).bind_iff]
    exact takes_pure _
  have key := takes_stringHere m.1 (':' :: ' ' :: ((m.2.textAt level).toList ++ t))
  rw [membersUpTo, has.bind_iff, if_pos rfl, key.bind_iff, member.bind_iff]
  exact later

theorem takes_membersUpTo {ms : List (String × Value)} (ends : Ends tail)
    (comes : tail.dropWhile isSpace = '\x7d' :: rest)
    (each : ∀ m ∈ ms, Leads (m.2.textAt level) ∧ Reads (value n) (m.2.textAt level) m.2) {k : Nat}
    (enough : ms.length ≤ k) (before : List (String × Value)) :
    ∃ left, (membersUpTo (memberOf n) k false before).Takes ((membersText level ms).toList ++ tail)
        (ms.reverse ++ before) left ∧ left.dropWhile isSpace = '\x7d' :: rest := by
  induction ms generalizing k before with
  | nil =>
    cases k with
    | zero => exact ⟨_, takes_pure _, comes⟩
    | succ k =>
      refine ⟨'\x7d' :: rest, ?_, rfl⟩
      have comes' : ((membersText level []).toList ++ tail).dropWhile isSpace = '\x7d' :: rest :=
        comes
      rw [membersUpTo, (takes_hasMember_end comes').bind_iff]
      exact takes_pure before
  | cons m ms ih =>
    obtain ⟨k, rfl⟩ : ∃ k', k = k' + 1 := ⟨k - 1, by rw [List.length_cons] at enough; omega⟩
    obtain ⟨⟨leads, reads⟩, each⟩ := List.forall_mem_cons.1 each
    obtain ⟨left, takes, stops⟩ := ih each (by simpa using enough) (m :: before)
    have takes' : (membersUpTo (memberOf n) k false (m :: before)).Takes
        ((membersText level ms).toList ++ tail) ((m :: ms).reverse ++ before) left := by
      simpa using takes
    refine ⟨left, takes_membersUpTo_cons ?_ leads reads (ends_membersText ms ends) takes', stops⟩
    rw [toList_membersText, List.cons_append, List.append_assoc, List.append_assoc,
      toList_memberText]
    exact takes_hasMember_next (dropWhile_lineStart level rfl _)

theorem length_le_membersText (ms : List (String × Value)) :
    ms.length ≤ (membersText level ms).toList.length := by
  induction ms with
  | nil => exact Nat.zero_le _
  | cons m ms ih =>
    simp only [toList_membersText, List.length_append, List.length_cons]
    omega

theorem takes_members {m : String × Value} {ms : List (String × Value)} (ends : Ends tail)
    (comes : tail.dropWhile isSpace = '\x7d' :: rest)
    (each : ∀ x ∈ m :: ms, Leads (x.2.textAt level) ∧ Reads (value n) (x.2.textAt level) x.2)
    (first : s.dropWhile isSpace =
      (memberText level m).toList ++ ((membersText level ms).toList ++ tail)) :
    ∃ left, (members (memberOf n) []).Takes s (m :: ms).reverse left ∧
      left.dropWhile isSpace = '\x7d' :: rest := by
  obtain ⟨⟨leads, reads⟩, each⟩ := List.forall_mem_cons.1 each
  have enough : ms.length + 1 ≤ s.length := by
    have printed : ms.length ≤ (membersText level ms).toList.length := length_le_membersText ms
    have := (List.dropWhile_sublist isSpace (l := s)).length_le
    simp only [first, toList_memberText, List.length_append, List.length_cons] at this
    omega
  obtain ⟨k, enoughLater⟩ : ∃ k, s.length = k + 1 := ⟨s.length - 1, by omega⟩
  obtain ⟨left, takes, stops⟩ := takes_membersUpTo ends comes each (k := k) (by omega) [m]
  refine ⟨left, ?_, stops⟩
  have has : (hasMember true).Takes s true
      ((memberText level m).toList ++ ((membersText level ms).toList ++ tail)) := by
    rw [toList_memberText] at first ⊢
    exact takes_hasMember_first first
  rw [members, takes_get.bind_iff, enoughLater]
  exact takes_membersUpTo_cons has leads reads (ends_membersText ms ends) (by simpa using takes)

theorem takes_members_nil :
    (members (memberOf n) []).Takes ('\x7d' :: rest) [] ('\x7d' :: rest) := by
  have has : (hasMember true).Takes ('\x7d' :: rest) false ('\x7d' :: rest) :=
    takes_hasMember_end rfl
  rw [members, takes_get.bind_iff, List.length_cons, membersUpTo, has.bind_iff]
  exact takes_pure []

end Members

section Lists
variable (level : Nat)

theorem toList_textAt_null : (Value.textAt level .null).toList = ['n', 'u', 'l', 'l'] := by
  change ("null" : String).toList = _
  rfl

theorem toList_textAt_boolean (b : Bool) : (Value.textAt level (.boolean b)).toList =
    if b then ['t', 'r', 'u', 'e'] else ['f', 'a', 'l', 's', 'e'] := by
  change (if b then "true" else "false" : String).toList = _
  cases b <;> rfl

theorem toList_textAt_integer (i : Int) : (Value.textAt level (.integer i)).toList =
    if 0 ≤ i then Nat.toDigits 10 i.toNat else '-' :: Nat.toDigits 10 (-i).toNat := by
  have minus : ("-" : String).toList = ['-'] := rfl
  change i.repr.toList = _
  rw [Int.repr_eq_if]
  split <;> simp [Nat.repr_eq_ofList_toDigits, minus]

theorem toList_textAt_string (s : String) : (Value.textAt level (.string s)).toList =
    '"' :: s.toList.flatMap escapedChar ++ ['"'] :=
  String.toList_ofList

theorem toList_textAt_array_nil : (Value.textAt level (.array [])).toList = ['[', ']'] := by
  change ("[]" : String).toList = _
  rfl

theorem textAt_array_cons (e : Value) (es : List Value) : Value.textAt level (.array (e :: es)) =
    "[" ++ lineStart (level + 1) ++ e.textAt (level + 1) ++ elementsText (level + 1) es ++
      lineStart level ++ "]" := rfl

theorem toList_textAt_array_cons (e : Value) (es : List Value) :
    (Value.textAt level (.array (e :: es))).toList = '[' :: ((lineStart (level + 1)).toList ++
      ((e.textAt (level + 1)).toList ++ ((elementsText (level + 1) es).toList ++
        ((lineStart level).toList ++ [']'])))) := by
  have opening : ("[" : String).toList = ['['] := rfl
  have closing : ("]" : String).toList = [']'] := rfl
  simp [textAt_array_cons, opening, closing]

theorem toList_textAt_object_nil : (Value.textAt level (.object [])).toList = ['\x7b', '\x7d'] := by
  change ("\x7b\x7d" : String).toList = _
  rfl

theorem textAt_object_cons (m : String × Value) (ms : List (String × Value)) :
    Value.textAt level (.object (m :: ms)) =
      "\x7b" ++ lineStart (level + 1) ++ memberText (level + 1) m ++ membersText (level + 1) ms ++
        lineStart level ++ "\x7d" := by
  simp only [memberText, ← String.append_assoc]
  rfl

theorem toList_textAt_object_cons (m : String × Value) (ms : List (String × Value)) :
    (Value.textAt level (.object (m :: ms))).toList = '\x7b' :: ((lineStart (level + 1)).toList ++
      ((memberText (level + 1) m).toList ++ ((membersText (level + 1) ms).toList ++
        ((lineStart level).toList ++ ['\x7d'])))) := by
  have opening : ("\x7b" : String).toList = ['\x7b'] := rfl
  have closing : ("\x7d" : String).toList = ['\x7d'] := rfl
  simp [textAt_object_cons, opening, closing]

end Lists

def BeginsNumber (c : Char) : Prop := c = '-' ∨ c.isDigit

theorem BeginsNumber.other (begins : BeginsNumber c) :
    isSpace c = false ∧ c ≠ ']' ∧ c ≠ '[' ∧ c ≠ '\x7b' := by
  have differs (d : Char) (plain : ¬(d = '-' ∨ d.isDigit)) : c ≠ d := by
    rintro rfl
    exact plain begins
  refine ⟨?_, differs _ (by decide), differs _ (by decide), differs _ (by decide)⟩
  simp only [isSpace, Bool.or_eq_false_iff, beq_eq_false_iff_ne]
  exact ⟨⟨⟨differs _ (by decide), differs _ (by decide)⟩, differs _ (by decide)⟩,
    differs _ (by decide)⟩

theorem exists_toDigits_eq_cons (n : Nat) :
    ∃ c cs, Nat.toDigits 10 n = c :: cs ∧ c.isDigit := by
  cases written : Nat.toDigits 10 n with
  | nil => exact absurd written Nat.toDigits_ne_nil
  | cons c cs =>
    have digit : c ∈ Nat.toDigits 10 n := by simp [written]
    exact ⟨c, cs, rfl, Nat.isDigit_of_mem_toDigits (by decide) (by decide) digit⟩

theorem exists_textAt_integer (level : Nat) (i : Int) :
    ∃ c cs, (Value.textAt level (.integer i)).toList = c :: cs ∧ BeginsNumber c := by
  rw [toList_textAt_integer]
  split
  · obtain ⟨c, cs, written, digit⟩ := exists_toDigits_eq_cons i.toNat
    exact ⟨c, cs, written, .inr digit⟩
  · exact ⟨'-', _, rfl, .inl rfl⟩

theorem takes_number {i : Int} (low : -(maxNegative : Int) ≤ i) (high : i ≤ maxNatural)
    (ends : Ends rest) (level : Nat) : ∃ x, valueOf x = .integer i ∧
      number.Takes ((Value.textAt level (.integer i)).toList ++ rest) x rest := by
  rw [toList_textAt_integer]
  split
  case isTrue natural =>
    have small : i.toNat ≤ maxNatural := by omega
    have read := readNumber_toDigits small ends false
    refine ⟨wholeNumber false i.toNat, congrArg Value.integer (Int.toNat_of_nonneg natural), ?_⟩
    obtain ⟨c, cs, written, digit⟩ := exists_toDigits_eq_cons i.toNat
    have noSign : c ≠ '-' := by
      rintro rfl
      exact absurd digit (by decide)
    rw [written, List.cons_append] at read ⊢
    rw [number, takes_get.bind_iff, if_neg (by simpa using noSign)]
    exact read
  case isFalse negative =>
    have small : (-i).toNat ≤ maxNegative := by omega
    have read := readNumber_toDigits (Nat.le_trans small (by decide)) ends true
    have notZero : (-i).toNat ≠ 0 := by omega
    have whole : wholeNumber true (-i).toNat = .integer i := by
      have back : -max (-i) 0 = i := by omega
      simp [wholeNumber, notZero, Nat.not_lt.2 small, back]
    refine ⟨.integer i, rfl, ?_⟩
    rw [List.cons_append, number, takes_get.bind_iff, List.head?_cons, if_pos rfl,
      takes_skip.bind_iff, ← whole]
    exact read

theorem takes_scalar_of_number {x : Number} {cs : List Char} (comes : s.dropWhile isSpace = c :: cs)
    (begins : BeginsNumber c) (takes : number.Takes (c :: cs) x rest) :
    scalar.Takes s (valueOf x) rest := by
  rw [scalar, (takes_peek comes).bind_iff]
  split
  case h_5 =>
    rw [if_pos (by simpa [BeginsNumber] using begins), takes.bind_iff]
    exact takes_pure _
  all_goals exact absurd begins (by simp [BeginsNumber])

theorem leads_textAt {n : Nat} {v : Value} (fits : v.Fits n) (level : Nat) :
    Leads (v.textAt level) := by
  cases fits with
  | null => exact ⟨'n', _, toList_textAt_null level, by decide⟩
  | boolean b => cases b <;> exact ⟨_, _, toList_textAt_boolean level _, by decide⟩
  | @integer _ i low high =>
    obtain ⟨c, cs, begins, isNumber⟩ := exists_textAt_integer level i
    exact ⟨c, cs, begins, isNumber.other.1, isNumber.other.2.1⟩
  | string s => exact ⟨'"', _, toList_textAt_string level s, by decide⟩
  | @array _ es _ =>
    cases es with
    | nil => exact ⟨'[', _, toList_textAt_array_nil level, by decide⟩
    | cons e es => exact ⟨'[', _, toList_textAt_array_cons level e es, by decide⟩
  | @object _ ms _ =>
    cases ms with
    | nil => exact ⟨'\x7b', _, toList_textAt_object_nil level, by decide⟩
    | cons m ms => exact ⟨'\x7b', _, toList_textAt_object_cons level m ms, by decide⟩

theorem reads_value_of_scalar {text : String} {v : Value} (n : Nat) (reads : Reads scalar text v)
    (leads : Leads text) (other : ∀ c ∈ text.toList.head?, c ≠ '[' ∧ c ≠ '\x7b') :
    Reads (value n) text v := by
  intro s rest ends comes
  cases n with
  | zero => exact reads s rest ends comes
  | succ n =>
    obtain ⟨c, cs, begins, notSpace, -⟩ := leads
    have notNested := other c (by simp [begins])
    rw [begins] at comes
    rw [value_succ, (takes_peek comes).bind_iff]
    split
    · exact absurd rfl notNested.1
    · exact absurd rfl notNested.2
    · exact reads _ rest ends (by simp [begins, notSpace])

/-- What is printed is read back. -/
theorem reads_value {n : Nat} {v : Value} (fits : v.Fits n) (level : Nat) :
    Reads (value n) (v.textAt level) v := by
  have leads := leads_textAt fits level
  induction fits generalizing level with
  | null =>
    refine reads_value_of_scalar _ (fun s rest _ comes => ?_) leads (by simp [toList_textAt_null])
    rw [toList_textAt_null] at comes
    rw [scalar, (takes_peek comes).bind_iff]
    rfl
  | boolean b =>
    refine reads_value_of_scalar _ (fun s rest _ comes => ?_) leads
      (by cases b <;> simp [toList_textAt_boolean])
    rw [toList_textAt_boolean] at comes
    cases b <;> rw [scalar, (takes_peek comes).bind_iff] <;> rfl
  | @integer _ i low high =>
    obtain ⟨c, cs, begins, isNumber⟩ := exists_textAt_integer level i
    refine reads_value_of_scalar _ (fun s rest ends comes => ?_) leads ?_
    · obtain ⟨x, isValue, takes⟩ := takes_number low high ends level
      rw [begins] at comes takes
      exact isValue ▸ takes_scalar_of_number comes isNumber takes
    · simpa [begins] using isNumber.other.2.2
  | string text =>
    refine reads_value_of_scalar _ (fun s rest _ comes => ?_) leads (by simp [toList_textAt_string])
    rw [toList_textAt_string, List.append_assoc] at comes
    have takes := takes_stringHere text rest
    rw [scalar, (takes_peek comes).bind_iff]
    exact takes.bind_iff.2 (takes_pure _)
  | @array n es each ih =>
    intro s rest ends comes
    cases es with
    | nil =>
      rw [toList_textAt_array_nil] at comes
      exact takes_array comes takes_elements_nil rfl
    | cons e es =>
      rw [toList_textAt_array_cons] at comes
      simp only [List.cons_append, List.append_assoc, List.nil_append] at comes
      have read (x : Value) (mem : x ∈ e :: es) :
          Leads (x.textAt (level + 1)) ∧ Reads (value n) (x.textAt (level + 1)) x :=
        ⟨leads_textAt (each x mem) _, ih x mem _ (leads_textAt (each x mem) _)⟩
      obtain ⟨c, cs, begins, notSpace, -⟩ := (read e List.mem_cons_self).1
      have first (t : List Char) : ((lineStart (level + 1)).toList ++
          ((e.textAt (level + 1)).toList ++ t)).dropWhile isSpace =
            (e.textAt (level + 1)).toList ++ t := by
        rw [begins]
        exact dropWhile_lineStart (level + 1) notSpace _
      obtain ⟨left, takes, stops⟩ := takes_elements (ends_lineStart level (']' :: rest))
        (dropWhile_lineStart level rfl rest) read (first _)
      exact takes_array comes takes stops
  | @object n ms each ih =>
    intro s rest ends comes
    cases ms with
    | nil =>
      rw [toList_textAt_object_nil] at comes
      have none : (members (memberOf n) []).Takes ('\x7d' :: rest) [].reverse ('\x7d' :: rest) :=
        takes_members_nil
      exact takes_object comes none rfl
    | cons m ms =>
      rw [toList_textAt_object_cons] at comes
      simp only [List.cons_append, List.append_assoc, List.nil_append] at comes
      have read (x : String × Value) (mem : x ∈ m :: ms) :
          Leads (x.2.textAt (level + 1)) ∧ Reads (value n) (x.2.textAt (level + 1)) x.2 :=
        ⟨leads_textAt (each x mem) _, ih x mem _ (leads_textAt (each x mem) _)⟩
      have first (t : List Char) : ((lineStart (level + 1)).toList ++
          ((memberText (level + 1) m).toList ++ t)).dropWhile isSpace =
            (memberText (level + 1) m).toList ++ t := by
        rw [toList_memberText]
        exact dropWhile_lineStart (level + 1) rfl _
      obtain ⟨left, takes, stops⟩ := takes_members (ends_lineStart level ('\x7d' :: rest))
        (dropWhile_lineStart level rfl rest) read (first _)
      exact takes_object comes takes stops

/-- The reader makes of the text of a value the value itself. -/
theorem run_value_text {n : Nat} {v : Value} (fits : v.Fits n) : run (value n) v.text = .ok v := by
  have leads := leads_textAt fits 0
  have takes := reads_value fits 0 _ [] (by simp [Ends]) (leads.dropWhile [])
  rw [List.append_nil] at takes
  have done : Takes (do let a ← value n; finish; return a) v.text.toList v [] := by
    rw [Value.text, takes.bind_iff, (takes_finish rfl).bind_iff]
    exact takes_pure v
  rw [run, StateT.run'_eq, done]
  rfl

end Reader
end LoopCapture.Json
