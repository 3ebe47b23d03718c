import LoopCapture.Diagnostic.SyntaxError

/-!
# Filling in a template

Each mark in a template should give way to its argument, and the text of an argument should stay as
it is. Arguments are filled in one after the other, so this is what happens where those that are
filled in first make no marks of later ones: always when there is one argument, as in all messages
here.
-/

namespace LoopCapture.Diagnostic

/-- A part of a template: a character that stays, or the mark of an argument. -/
inductive Piece where
  | char (c : Char)
  | mark (number : Nat)
deriving DecidableEq

/-- The argument whose mark a text begins with, if it is one of so many. -/
def leadingMark? (count : Nat) (text : List Char) : Option Nat :=
  (List.range count).find? fun number => (argumentMark number).isPrefixOf text

/-- A template taken apart, given the number of its arguments. -/
def pieces (count : Nat) : List Char → List Piece
  | [] => []
  | c :: cs =>
    match leadingMark? count (c :: cs) with
    | some number => .mark number :: pieces count (cs.drop ((argumentMark number).length - 1))
    | none => .char c :: pieces count cs
termination_by cs => cs.length
decreasing_by all_goals simp only [List.length_drop, List.length_cons]; omega

def Piece.filled (arguments : List String) : Piece → List Char
  | .char c => [c]
  | .mark number => (arguments.getD number "").toList

/-- A template in which each mark gives way to its argument, whatever the arguments hold. -/
def fillAtOnce (template : String) (arguments : List String) : String :=
  String.ofList ((pieces arguments.length template.toList).flatMap (Piece.filled arguments))

/-- A piece when only the arguments in front of the given one have been filled in. -/
def Piece.filledTo (arguments : List String) (number : Nat) : Piece → List Char
  | .char c => [c]
  | .mark i => if i < number then (arguments.getD i "").toList else argumentMark i

/-- A template when the arguments in front of the given one have been filled in. -/
def filledTo (template : String) (arguments : List String) (number : Nat) : List Char :=
  (pieces arguments.length template.toList).flatMap (Piece.filledTo arguments number)

/-- How often a mark stands in a text. -/
def occurrences (mark : List Char) : List Char → Nat
  | [] => 0
  | c :: cs => (if mark.isPrefixOf (c :: cs) then 1 else 0) + occurrences mark cs

/-- The arguments that have been filled in make no marks of the next one: it has as many as the
template has. -/
def KeepsMarks (template : String) (arguments : List String) : Prop :=
  ∀ number < arguments.length,
    occurrences (argumentMark number) (filledTo template arguments number) =
      occurrences (argumentMark number) template.toList

variable {number other : Nat} {text rest : List Char}

theorem isDigit_of_mem_repr {c : Char} (mem : c ∈ (Nat.repr number).toList) : c.isDigit = true := by
  rw [Nat.toList_repr] at mem
  exact Nat.isDigit_of_mem_toDigits (by decide) (by decide) mem

theorem repr_injective (same : (Nat.repr number).toList = (Nat.repr other).toList) :
    number = other := by
  rw [Nat.toList_repr, Nat.toList_repr] at same
  rw [← Nat.ofDigitChars_ten_toDigits (n := number), same, Nat.ofDigitChars_ten_toDigits]

/-- What a mark is made of behind its opening brace holds no opening brace. -/
theorem ne_brace_of_mem_mark {c : Char} (mem : c ∈ (argumentMark number).tail) : c ≠ '{' := by
  rintro rfl
  simp only [argumentMark, List.cons_append, List.tail_cons, List.mem_append,
    List.mem_singleton] at mem
  obtain digit | brace := mem
  · exact absurd (isDigit_of_mem_repr digit) (by decide)
  · exact absurd brace (by decide)

/-- A text begins with one mark at most. -/
theorem eq_of_marks_prefix (begins : argumentMark number <+: text)
    (begins' : argumentMark other <+: text) : number = other := by
  obtain ⟨rest, rfl⟩ := begins
  obtain ⟨rest', same⟩ := begins'
  have digits (number : Nat) (rest : List Char) :
    ((Nat.repr number).toList ++ '}' :: rest).takeWhile
      Char.isDigit = (Nat.repr number).toList := by
    rw [List.takeWhile_append_of_pos fun c => isDigit_of_mem_repr]
    simp
  apply repr_injective
  rw [← digits number rest, ← digits other rest']
  exact congrArg (List.takeWhile Char.isDigit) (by simpa [argumentMark] using same.symm)

theorem occurrences_le_append (mark before rest : List Char) :
    occurrences mark rest ≤ occurrences mark (before ++ rest) := by
  induction before with
  | nil => exact Nat.le_refl _
  | cons c before ih => exact Nat.le_trans ih (Nat.le_add_left _ _)

/-- A text without an opening brace holds no start of a mark. -/
theorem occurrences_append_of_ne_brace {before : List Char} (plain : ∀ c ∈ before, c ≠ '{') :
    occurrences (argumentMark number) (before ++ rest) =
      occurrences (argumentMark number) rest := by
  induction before with
  | nil => rfl
  | cons c before ih =>
    obtain ⟨ne, plain⟩ := List.forall_mem_cons.mp plain
    have other : (argumentMark number).isPrefixOf (c :: (before ++ rest)) = false := by
      simp [argumentMark, List.isPrefixOf, ne.symm]
    rw [List.cons_append, occurrences, other, ih plain]
    exact Nat.zero_add _

theorem occurrences_mark_append :
    occurrences (argumentMark number) (argumentMark other ++ rest) =
      (if number = other then 1 else 0) + occurrences (argumentMark number) rest := by
  have begins : (argumentMark number).isPrefixOf (argumentMark other ++ rest) = true ↔
      number = other := by
    rw [List.isPrefixOf_iff_prefix]
    refine ⟨fun begins => eq_of_marks_prefix begins (List.prefix_append _ _), ?_⟩
    rintro rfl
    exact List.prefix_append _ _
  have inside : occurrences (argumentMark number) ((argumentMark other).tail ++ rest) =
      occurrences (argumentMark number) rest :=
    occurrences_append_of_ne_brace fun _ => ne_brace_of_mem_mark
  change (if (argumentMark number).isPrefixOf (argumentMark other ++ rest) then 1 else 0) +
    occurrences (argumentMark number) ((argumentMark other).tail ++ rest) = _
  rw [inside]
  simp only [begins]

theorem leadingMark?_eq_some {count : Nat} (leads : leadingMark? count text = some number) :
    number < count ∧ argumentMark number <+: text := by
  have mem := List.mem_of_find?_eq_some leads
  have begins := List.find?_some leads
  exact ⟨List.mem_range.mp mem, List.isPrefixOf_iff_prefix.mp begins⟩

theorem leadingMark?_eq_none {count : Nat} (leads : leadingMark? count text = none)
    (lt : number < count) : (argumentMark number).isPrefixOf text = false := by
  exact Bool.eq_false_iff.mpr (List.find?_eq_none.mp leads number (List.mem_range.mpr lt))

theorem cons_eq_mark_append {c : Char} {cs : List Char} (begins : argumentMark number <+: c :: cs) :
    c :: cs = argumentMark number ++ cs.drop ((argumentMark number).length - 1) := by
  obtain ⟨rest, is⟩ := begins
  have behind : cs = (argumentMark number).tail ++ rest := (List.cons.inj is).2.symm
  rw [← is, behind, ← List.length_tail, List.drop_left]

/-- The marks of a template are found when it is taken apart. -/
theorem count_pieces {count : Nat} (lt : number < count) (text : List Char) :
    (pieces count text).count (.mark number) = occurrences (argumentMark number) text := by
  fun_induction pieces count text with
  | case1 => rfl
  | case2 c cs i leads ih =>
    obtain ⟨-, begins⟩ := leadingMark?_eq_some leads
    rw [cons_eq_mark_append begins, occurrences_mark_append, ← ih, List.count_cons, Nat.add_comm]
    by_cases same : number = i
    · simp [same]
    · simp [same, Ne.symm same]
  | case3 c cs leads ih =>
    rw [occurrences, leadingMark?_eq_none leads lt, ← ih]
    simp

theorem lt_of_mem_pieces {count : Nat} (mem : .mark number ∈ pieces count text) :
    number < count := by
  fun_induction pieces count text with
  | case1 => cases mem
  | case2 c cs i leads ih =>
    obtain is | mem := List.mem_cons.mp mem
    · cases is
      exact (leadingMark?_eq_some leads).1
    · exact ih mem
  | case3 c cs leads ih => exact ih (by simpa using mem)

variable {arguments : List String} {ps : List Piece} {mark argument before : List Char}

/-- Filling in passes over a text in which no mark starts. -/
theorem fillMark_append (plain : occurrences mark (before ++ rest) = occurrences mark rest) :
    fillMark mark argument (before ++ rest) = before ++ fillMark mark argument rest := by
  induction before with
  | nil => rfl
  | cons c before ih =>
    have le := occurrences_le_append mark before rest
    rw [List.cons_append, occurrences] at plain
    have other : ¬ mark.isPrefixOf (c :: (before ++ rest)) = true := fun begins => by
      rw [if_pos begins] at plain
      omega
    rw [List.cons_append, fillMark, if_neg other, ih (by omega), List.cons_append]

theorem fillMark_mark_append :
    fillMark (argumentMark number) argument (argumentMark number ++ rest) =
      argument ++ fillMark (argumentMark number) argument rest := by
  have begins : (argumentMark number).isPrefixOf (argumentMark number ++ rest) = true :=
    List.isPrefixOf_iff_prefix.mpr (List.prefix_append _ _)
  have whole : argumentMark number ++ rest = '{' :: ((argumentMark number).tail ++ rest) := rfl
  rw [whole, fillMark, ← whole, if_pos begins, ← List.length_tail, List.drop_left]

theorem Piece.filledTo_mark (arguments : List String) (number : Nat) :
    Piece.filledTo arguments number (.mark number) = argumentMark number :=
  if_neg (Nat.lt_irrefl number)

theorem Piece.filledTo_succ {p : Piece} (ne : p ≠ .mark number) :
    p.filledTo arguments (number + 1) = p.filledTo arguments number := by
  cases p with
  | char c => rfl
  | mark i =>
    have other : i ≠ number := by rintro rfl; exact ne rfl
    have same : i < number + 1 ↔ i < number := by omega
    simp only [filledTo, same]

theorem count_le_occurrences (arguments : List String) (number : Nat) (ps : List Piece) :
    ps.count (.mark number) ≤
      occurrences (argumentMark number) (ps.flatMap (Piece.filledTo arguments number)) := by
  induction ps with
  | nil => exact Nat.le_refl _
  | cons p ps ih =>
    rw [List.flatMap_cons]
    by_cases is : p = .mark number
    · rw [is, List.count_cons_self, Piece.filledTo_mark, occurrences_mark_append, if_pos rfl,
        Nat.add_comm]
      exact Nat.add_le_add_left ih 1
    · rw [List.count_cons_of_ne is]
      exact Nat.le_trans ih (occurrences_le_append _ _ _)

/-- An argument is filled in where the template has its marks if there are no others. -/
theorem fillMark_filledTo (same : occurrences (argumentMark number)
      (ps.flatMap (Piece.filledTo arguments number)) = ps.count (.mark number)) :
    fillMark (argumentMark number) (arguments.getD number "").toList
        (ps.flatMap (Piece.filledTo arguments number)) =
      ps.flatMap (Piece.filledTo arguments (number + 1)) := by
  induction ps with
  | nil => simp [fillMark]
  | cons p ps ih =>
    rw [List.flatMap_cons] at same
    rw [List.flatMap_cons, List.flatMap_cons]
    by_cases is : p = .mark number
    · rw [is, Piece.filledTo_mark, occurrences_mark_append, if_pos rfl,
        List.count_cons_self] at same
      rw [is, Piece.filledTo_mark, fillMark_mark_append, ih (by omega)]
      simp [Piece.filledTo]
    · rw [List.count_cons_of_ne is] at same
      have le := count_le_occurrences arguments number ps
      have le' := occurrences_le_append (argumentMark number) (p.filledTo arguments number)
        (ps.flatMap (Piece.filledTo arguments number))
      rw [fillMark_append (by omega), ih (by omega), Piece.filledTo_succ is]

variable {template : String}

theorem filledTo_zero (template : String) (arguments : List String) :
    filledTo template arguments 0 = template.toList := by
  unfold filledTo
  fun_induction pieces arguments.length template.toList with
  | case1 => rfl
  | case2 c cs i leads ih =>
    rw [cons_eq_mark_append (leadingMark?_eq_some leads).2, List.flatMap_cons, ih]
    rfl
  | case3 c cs leads ih =>
    rw [List.flatMap_cons, ih]
    rfl

/-- When all arguments have been filled in, each mark has given way to its argument. -/
theorem filledTo_length (template : String) (arguments : List String) :
    String.ofList (filledTo template arguments arguments.length) =
      fillAtOnce template arguments := by
  have filled : ∀ p ∈ pieces arguments.length template.toList,
      p.filledTo arguments arguments.length = p.filled arguments := by
    rintro (c | number) mem
    · rfl
    · exact if_pos (lt_of_mem_pieces mem)
  rw [filledTo, List.flatMap_def, List.map_congr_left filled]
  rfl

theorem fillFrom_filledTo (keeps : KeepsMarks template arguments) {before rest : List String}
    (split : before ++ rest = arguments) :
    fillFrom before.length rest (filledTo template arguments before.length) =
      filledTo template arguments arguments.length := by
  induction rest generalizing before with
  | nil =>
    rw [List.append_nil] at split
    rw [split]
    rfl
  | cons argument rest ih =>
    have lt : before.length < arguments.length := by simp [← split]
    have is : arguments.getD before.length "" = argument := by simp [← split]
    have own := (keeps before.length lt).trans (count_pieces lt template.toList).symm
    have next : before.length + 1 = (before ++ [argument]).length := by simp
    rw [fillFrom, ← is, filledTo, fillMark_filledTo own, next]
    exact ih (by rw [List.append_assoc]; exact split)

/-- Where the arguments that are filled in first make no marks of later ones, the marks of the
template, and nothing else, give way to their arguments. -/
theorem formatMessage_eq_fillAtOnce (template : String) (arguments : List String)
    (keeps : KeepsMarks template arguments) :
    formatMessage template arguments = fillAtOnce template arguments := by
  have all := fillFrom_filledTo keeps (List.nil_append arguments)
  rw [List.length_nil, filledTo_zero] at all
  rw [formatMessage, all, filledTo_length]

/-- Arguments in braces stay as they are when none of them is the mark of a later one. -/
theorem formatMessage_braces :
    KeepsMarks "\x7b1\x7d: \x7b0\x7d" ["\x7b0\x7d!", "\x7b2\x7d"] ∧
      formatMessage "\x7b1\x7d: \x7b0\x7d" ["\x7b0\x7d!", "\x7b2\x7d"] =
        "\x7b2\x7d: \x7b0\x7d!" := by
  have keeps : KeepsMarks "\x7b1\x7d: \x7b0\x7d" ["\x7b0\x7d!", "\x7b2\x7d"] := fun number lt =>
    match number, lt with
    | 0, _ => by cbv
    | 1, _ => by cbv
  exact ⟨keeps, (formatMessage_eq_fillAtOnce _ _ keeps).trans (by cbv)⟩

-- the mark of the second argument in the text of the first one is filled in too
example : formatMessage "\x7b0\x7d" ["\x7b1\x7d", "x"] = "x" := by cbv

theorem keepsMarks_of_length_le_one (few : arguments.length ≤ 1) :
    KeepsMarks template arguments := by
  intro number lt
  obtain rfl : number = 0 := by omega
  rw [filledTo_zero]

theorem keepsMarks_arguments (template : String) (fault : Fault) :
    KeepsMarks template fault.arguments :=
  keepsMarks_of_length_le_one (by cases fault <;> simp [Fault.arguments])

end LoopCapture.Diagnostic
