import LoopCapture.Proofs.Grammar.Operators.Grouping

/-!
# How operators are written

Between spaces an operator is read where it is written. One that begins with a greater-than sign is
read as that sign first, and as the operator when the sign is read again.
-/

namespace LoopCapture.Grammar
open Text (Offset byteSize)
open Token (Cursor Gap Kind Punctuator Scanner Shows beginsTrivia lexeme)

namespace PlainName

def text (x : PlainName) : List Char := x.name.text

end PlainName

namespace Operator

def text (o : Operator) : List Char := o.kind.spelling.toList

/-- The token that is read where another one is written. -/
def signOf : Kind → Kind
  | .punctuator .greaterEq | .punctuator .shiftRight | .punctuator .shiftRightUnsigned =>
    .punctuator .greater
  | k => k

/-- The token that an operator is read as first. -/
def sign (o : Operator) : Kind := signOf o.kind

end Operator

/-- Each operator and each name is written after a space. -/
def Operands.text (operands : Operands) : List Char :=
  operands.flatMap fun (o, x) => ' ' :: (o.text ++ ' ' :: x.text)

@[simp] theorem Operands.text_nil : Operands.text [] = [] := rfl

theorem Operands.text_cons (o : Operator) (x : PlainName) (operands : Operands) :
    Operands.text ((o, x) :: operands) =
      ' ' :: (o.text ++ ' ' :: (x.text ++ Operands.text operands)) := by
  simp [Operands.text]

namespace Operator

theorem byteSize_text_pos (o : Operator) : 0 < byteSize o.text := by
  have pos : ∀ k ∈ kinds, 0 < byteSize k.spelling.toList := by decide
  exact pos o.kind o.kind_mem_kinds

theorem byteSize_text (o : Operator) : byteSize o.text = o.kind.spelling.length := by
  have bytes : ∀ k ∈ kinds, byteSize k.spelling.toList = k.spelling.length := by decide
  exact bytes o.kind o.kind_mem_kinds

theorem sign_eq {o : Operator} (h : o.sign ≠ .punctuator .greater) : o.sign = o.kind := by
  unfold sign signOf at h ⊢
  split at h
  · exact absurd rfl h
  · exact absurd rfl h
  · exact absurd rfl h
  · rfl

end Operator

theorem Operands.length_le_byteSize (operands : Operands) :
    operands.length ≤ byteSize operands.text := by
  induction operands with
  | nil => exact Nat.le_refl _
  | cons next operands ih =>
    obtain ⟨o, x⟩ := next
    have pos := o.byteSize_text_pos
    rw [Operands.text_cons, byteSize, Text.byteSize_append, byteSize, Text.byteSize_append,
      List.length_cons]
    omega

theorem Operator.openParen_not_mem (o : Operator) : '(' ∉ o.text := by
  have without : ∀ k ∈ kinds, '(' ∉ k.spelling.toList := by decide
  exact without o.kind o.kind_mem_kinds

theorem PlainName.openParen_not_mem (x : PlainName) : '(' ∉ x.text := by
  have noPart : Token.isNamePart '(' = false := by decide
  intro mem
  rcases List.mem_cons.mp mem with first | rest
  · have starts := Token.isNamePart_of_isNameStart x.name.starts
    rw [← first, noPart] at starts
    cases starts
  · have goesOn := x.name.goesOn _ rest
    rw [noPart] at goesOn
    cases goesOn

theorem Operands.openParen_not_mem (operands : Operands) : '(' ∉ operands.text := by
  induction operands with
  | nil => exact List.not_mem_nil
  | cons next operands ih =>
    obtain ⟨o, x⟩ := next
    rw [Operands.text_cons]
    simp [o.openParen_not_mem, x.openParen_not_mem, ih]

/-- What follows an operator that was read as its sign only. -/
def Operator.afterSign (o : Operator) (offset : Offset) (cs : List Char) : Cursor :=
  ⟨offset + o.sign.spelling.length, o.text.drop o.sign.spelling.length ++ ' ' :: cs⟩

theorem Operator.exists_lexeme (o : Operator) (cs : List Char) (i : Offset) :
    ∃ x xs value, o.text ++ ' ' :: cs = x :: xs ∧ beginsTrivia i x xs = false ∧
      lexeme ⟨i, x :: xs⟩ x xs = ⟨o.sign, value, o.afterSign i cs, none⟩ := by
  obtain ⟨kind, binds, noCast⟩ := o
  change ∃ x xs value, kind.spelling.toList ++ ' ' :: cs = x :: xs ∧ beginsTrivia i x xs = false ∧
    lexeme ⟨i, x :: xs⟩ x xs = ⟨signOf kind, value, ⟨i + (signOf kind).spelling.length,
      kind.spelling.toList.drop (signOf kind).spelling.length ++ ' ' :: cs⟩, none⟩
  cases kind with
  | punctuator mark =>
    cases mark <;> first
      | exact absurd binds (Nat.lt_irrefl 0)
      | exact ⟨_, _, "", rfl, rfl, rfl⟩
  | keyword word =>
    have ends : Token.EndsName (' ' :: cs) := by
      rintro _ ⟨⟩
      decide
    cases word with
    | in_ =>
      have known : Token.Keyword.ofSpelling? "in" = some .in_ := by decide
      have letters : ∀ c ∈ ['n'], Token.isNamePart c = true := List.all_eq_true.mp (by decide)
      obtain ⟨stands, reads⟩ := Token.lexeme_letters (x := 'i') (by decide) letters ends i
      rw [show String.ofList ['i', 'n'] = "in" from rfl, known] at reads
      exact ⟨'i', _, _, rfl, stands, reads⟩
    | instanceof_ =>
      have known : Token.Keyword.ofSpelling? "instanceof" = some .instanceof_ := by decide
      have letters : ∀ c ∈ "nstanceof".toList, Token.isNamePart c = true :=
        List.all_eq_true.mp (by decide)
      obtain ⟨stands, reads⟩ := Token.lexeme_letters (x := 'i') (by decide) letters ends i
      rw [show String.ofList ('i' :: "nstanceof".toList) = "instanceof" from rfl, known] at reads
      exact ⟨'i', _, _, rfl, stands, reads⟩
    | as_ => exact absurd rfl noCast.1
    | satisfies_ => exact absurd rfl noCast.2
    | _ => exact absurd binds (Nat.lt_irrefl 0)
  | _ => exact absurd binds (Nat.lt_irrefl 0)

/-- A greater-than sign is extended to the operator that is written. -/
theorem Operator.exists_extendGreater (o : Operator) (isGreater : o.sign = .punctuator .greater)
    (cs : List Char) : ∃ mark, o.kind = .punctuator mark ∧
      Punctuator.extendGreater (o.text.drop 1 ++ ' ' :: cs) = (mark, ' ' :: cs) := by
  obtain ⟨kind, binds, noCast⟩ := o
  change signOf kind = _ at isGreater
  change ∃ mark, kind = .punctuator mark ∧
    Punctuator.extendGreater (kind.spelling.toList.drop 1 ++ ' ' :: cs) = (mark, ' ' :: cs)
  cases kind with
  | punctuator mark => cases mark <;> first | exact ⟨_, rfl, rfl⟩ | cases isGreater
  | _ => cases isGreater

/-- The token after a place, a greater-than sign read again, is the operator, and the other place is
behind it. -/
structure ShowsOperator (c : Cursor) (o : Operator) (d : Cursor) : Prop where
  shows : ∃ value after, Shows c o.sign value (c.offset + 1) after
  kind : (Scanner.next c).rescanGreater.kind = o.kind
  stop : (Scanner.next c).rescanGreater.stop = d
  quiet : (Scanner.next c).rescanGreater.errors = #[]

theorem showsOperator (o : Operator) (cs : List Char) (offset : Offset) :
    ShowsOperator ⟨offset, ' ' :: (o.text ++ ' ' :: cs)⟩ o
      ⟨offset + 1 + byteSize o.text, ' ' :: cs⟩ := by
  obtain ⟨x, xs, value, text, stands, reads⟩ := o.exists_lexeme cs (offset + 1)
  have shows : Shows ⟨offset, ' ' :: (x :: xs)⟩ o.sign value (offset + 1)
      (o.afterSign (offset + 1) cs) :=
    Token.shows_lexeme Gap.space.isGap stands reads rfl
  rw [text]
  by_cases isGreater : o.sign = .punctuator .greater
  · obtain ⟨mark, kind, extends_⟩ := o.exists_extendGreater isGreater cs
    have ends : o.afterSign (offset + 1) cs = ⟨offset + 1 + 1, o.text.drop 1 ++ ' ' :: cs⟩ := by
      rw [Operator.afterSign, isGreater]
      rfl
    have longer : 1 + (mark.spelling.length - 1) = byteSize o.text := by
      rw [o.byteSize_text, kind]
      exact Nat.add_sub_of_le mark.length_spelling_pos
    have reread : (Scanner.next ⟨offset, ' ' :: (x :: xs)⟩).rescanGreater =
        { Scanner.next ⟨offset, ' ' :: (x :: xs)⟩ with
          kind := .punctuator mark
          stop := ⟨offset + 1 + byteSize o.text, ' ' :: cs⟩ } := by
      rw [Scanner.rescanGreater, if_pos (shows.kind.trans isGreater), shows.stop, ends, extends_,
        ← longer, ← Nat.add_assoc]
    rw [← kind] at reread
    exact ⟨⟨value, _, shows⟩, by rw [reread], by rw [reread], by rw [reread, shows.quiet]⟩
  · have same := Operator.sign_eq isGreater
    have ends : o.afterSign (offset + 1) cs = ⟨offset + 1 + byteSize o.text, ' ' :: cs⟩ := by
      rw [Operator.afterSign, same, o.byteSize_text, Operator.text, ← String.length_toList,
        List.drop_length]
      rfl
    have reread : (Scanner.next ⟨offset, ' ' :: (x :: xs)⟩).rescanGreater =
        Scanner.next ⟨offset, ' ' :: (x :: xs)⟩ := by
      rw [Scanner.rescanGreater, if_neg (by rw [shows.kind]; exact isGreater)]
    exact ⟨⟨value, _, shows⟩, by rw [reread, shows.kind, same], by rw [reread, shows.stop, ends],
      by rw [reread, shows.quiet]⟩

/-- Reading a greater-than sign again once more changes nothing. -/
theorem Scanner.rescanGreater_idem (s : Scanner) :
    s.rescanGreater.rescanGreater = s.rescanGreater := by
  by_cases isGreater : s.kind = .punctuator .greater
  · have once : s.rescanGreater = { s with
        kind := .punctuator (Punctuator.extendGreater s.stop.rest).1
        stop := ⟨s.stop.offset + ((Punctuator.extendGreater s.stop.rest).1.spelling.length - 1),
          (Punctuator.extendGreater s.stop.rest).2⟩ } := by
      rw [Scanner.rescanGreater, if_pos isGreater]
    rw [once]
    have single : Punctuator.greater.spelling.length - 1 = 0 := rfl
    unfold Punctuator.extendGreater
    split
    all_goals first
      | rfl
      | simp [Scanner.rescanGreater, Punctuator.extendGreater, *]
  · have once : s.rescanGreater = s := by rw [Scanner.rescanGreater, if_neg isGreater]
    rw [once, once]

end LoopCapture.Grammar
