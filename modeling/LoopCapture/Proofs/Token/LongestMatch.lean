import LoopCapture.Proofs.Token.Strings

/-!
# Marks of punctuation are as long as can be

Of all punctuators that a text begins with the longest one is read, once a greater-than sign has
been extended. Only a question mark in front of a fraction such as `.5` stands alone.
-/

namespace LoopCapture.Token
open Text (Offset)

namespace Punctuator

def all : List Punctuator :=
  [ .openBrace, .closeBrace, .openParen, .closeParen, .openBracket, .closeBracket, .dot,
    .ellipsis, .semicolon, .comma, .questionDot, .colon, .question, .atSign, .arrow, .tilde,
    .less, .greater, .lessEq, .greaterEq, .eqEq, .bangEq, .eqEqEq, .bangEqEq, .plus, .minus,
    .star, .starStar, .slash, .percent, .plusPlus, .minusMinus, .shiftLeft, .shiftRight,
    .shiftRightUnsigned, .amp, .bar, .caret, .bang, .ampAmp, .barBar, .questionQuestion, .eq,
    .plusEq, .minusEq, .starEq, .starStarEq, .slashEq, .percentEq, .shiftLeftEq,
    .shiftRightEq, .shiftRightUnsignedEq, .ampEq, .barEq, .caretEq, .barBarEq, .ampAmpEq,
    .questionQuestionEq ]

theorem mem_all (mark : Punctuator) : mark ∈ all := by
  cases mark <;> decide

/-- What makes a longer punctuator of a punctuator when it follows directly. -/
def lengthenings : Punctuator → List (List Char)
  | .dot => [['.', '.']]
  | .question => [['.'], ['?']]
  | .less => [['<'], ['=']]
  | .greater | .shiftRight => [['>'], ['=']]
  | .eq => [['='], ['>']]
  | .plus => [['+'], ['=']]
  | .minus => [['-'], ['=']]
  | .star => [['*'], ['=']]
  | .amp => [['&'], ['=']]
  | .bar => [['|'], ['=']]
  | .bang | .slash | .percent | .caret | .eqEq | .bangEq | .starStar | .shiftLeft
  | .shiftRightUnsigned | .ampAmp | .barBar | .questionQuestion => [['=']]
  | _ => []

/-- A punctuator that another one begins with goes on as told. -/
theorem lengthened {mark other : Punctuator}
    (begins : mark.spelling.toList <+: other.spelling.toList) (ne : mark ≠ other) :
    ∃ more ∈ mark.lengthenings, mark.spelling.toList ++ more <+: other.spelling.toList := by
  have table : ∀ mark ∈ all, ∀ other ∈ all, mark.spelling.toList <+: other.spelling.toList →
      mark ≠ other → ∃ more ∈ mark.lengthenings,
        mark.spelling.toList ++ more <+: other.spelling.toList := by
    decide +kernel
  exact table mark mark.mem_all other other.mem_all begins ne

/-- No punctuator that a text begins with is longer than this one, which is one of them. -/
structure IsLongest (mark : Punctuator) (text : List Char) : Prop where
  begins : mark.spelling.toList <+: text
  longest : ∀ other : Punctuator, other.spelling.toList <+: text →
    other.spelling.length ≤ mark.spelling.length

/-- A punctuator that does not go on as a longer one is the longest. -/
theorem isLongest_of_not_lengthened {mark : Punctuator} {rest : List Char}
    (ends : ∀ more ∈ mark.lengthenings, ¬ more <+: rest) :
    mark.IsLongest (mark.spelling.toList ++ rest) := by
  refine ⟨List.prefix_append _ rest, fun other begins => Nat.le_of_not_lt fun longer => ?_⟩
  have inside : mark.spelling.toList <+: other.spelling.toList :=
    List.prefix_of_prefix_length_le (List.prefix_append _ rest) begins
      (by simpa only [String.length_toList] using Nat.le_of_lt longer)
  obtain ⟨more, mem, goesOn⟩ := lengthened inside (by rintro rfl; exact Nat.lt_irrefl _ longer)
  exact ends more mem ((List.prefix_append_right_inj _).mp (goesOn.trans begins))

/-- The text begins with a question mark in front of a fraction. -/
def BeginsFraction (text : List Char) : Prop :=
  ∃ d rest, text = '?' :: '.' :: d :: rest ∧ d.isDigit = true

/-- What was read as a punctuator does not go on as a longer one. -/
theorem not_lengthened_of_read? {cs rest : List Char} {mark : Punctuator}
    (reads : read? cs = some (mark, rest)) (other : mark ≠ .greater)
    (noFraction : ¬ BeginsFraction cs) :
    ∀ more ∈ mark.lengthenings, ¬ more <+: rest := by
  rintro more mem ⟨after, rfl⟩
  unfold read? at reads
  split at reads
  case h_15 r =>
    split at reads
    · rename_i digit
      obtain ⟨d, first, isDigit⟩ := (Option.any_eq_true _ _).mp digit
      obtain ⟨rest, rfl⟩ := List.head?_eq_some_iff.mp first
      exact noFraction ⟨d, rest, rfl, isDigit⟩
    · cases reads
      cases mem
  all_goals
    cases reads
    try contradiction
  all_goals
    simp only [lengthenings, List.mem_cons, List.not_mem_nil, or_false] at mem
    rcases mem with rfl | rfl
  all_goals simp_all

theorem not_lengthened_of_extendGreater {cs rest : List Char} {mark : Punctuator}
    (reads : extendGreater cs = (mark, rest)) : ∀ more ∈ mark.lengthenings, ¬ more <+: rest := by
  rintro more mem ⟨after, rfl⟩
  unfold extendGreater at reads
  split at reads
  all_goals
    cases reads
    simp only [lengthenings, List.mem_cons, List.not_mem_nil, or_false] at mem
  all_goals rcases mem with rfl | rfl
  all_goals simp_all

end Punctuator

namespace Scanner
open Punctuator (IsLongest BeginsFraction)

/-- The current token is a punctuator, the longest that there is at its start, or a question mark in
front of a fraction. -/
structure ReadsLongest (s : Scanner) (mark : Punctuator) : Prop where
  kind : s.kind = .punctuator mark
  text : s.tokenText = s.kind.spelling
  longest : ¬ BeginsFraction s.start.rest → mark.IsLongest s.start.rest
  alone : BeginsFraction s.start.rest → mark = .question

theorem ReadsLongest.of_not_lengthened {s : Scanner} {mark : Punctuator}
    (kind : s.kind = .punctuator mark)
    (written : s.start.rest = mark.spelling.toList ++ s.stop.rest)
    (stop : s.stop.offset = s.start.offset + mark.spelling.length)
    (ends : ¬ BeginsFraction s.start.rest → ∀ more ∈ mark.lengthenings, ¬ more <+: s.stop.rest)
    (alone : BeginsFraction s.start.rest → mark = .question) : s.ReadsLongest mark := by
  refine ⟨kind, ?_, fun noFraction => ?_, alone⟩
  · rw [tokenText, Cursor.textTo_eq written (by rw [Punctuator.byteSize_spelling, stop]), kind]
    exact String.ofList_toList
  · rw [written]
    exact Punctuator.isLongest_of_not_lengthened (ends noFraction)

/-- Where a punctuator was scanned, it was read behind the trivia. -/
theorem read?_of_scan {s : Scanner} {mark : Punctuator} (is : s.scan.kind = .punctuator mark) :
    Punctuator.read? s.scan.start.rest = some (mark, s.scan.stop.rest) ∧
      s.scan.stop.offset = s.scan.start.offset + mark.spelling.length := by
  cases stands : (skipTrivia s.stop false).cursor.rest with
  | nil =>
    have ends : s.scan.kind = .endOfFile := by
      unfold scan
      simp only
      split <;> simp_all [become]
    simp [ends] at is
  | cons x cs =>
    rw [scan_eq_become stands] at is ⊢
    obtain ⟨rest, reads, after⟩ := read?_of_lexeme is
    simp only [become, stands, after, reads, and_self]

/-- Whatever was scanned before, a punctuator that is scanned is the longest one once a greater-than
sign has been extended. -/
theorem readsLongest_scan (s : Scanner) {mark : Punctuator} (is : s.scan.kind = .punctuator mark) :
    ∃ longest, s.scan.rescanGreater.ReadsLongest longest := by
  obtain ⟨reads, stop⟩ := read?_of_scan is
  have written := Punctuator.eq_spelling_append_of_read? reads
  by_cases isGreater : mark = .greater
  · subst isGreater
    have longer := Punctuator.cons_eq_spelling_append s.scan.stop.rest
    rw [rescanGreater, if_pos is]
    refine ⟨_, .of_not_lengthened rfl (written.trans longer) ?_ (fun _ => ?_) ?_⟩
    · exact Punctuator.offset_extendGreater s.scan.stop.rest stop
    · exact Punctuator.not_lengthened_of_extendGreater rfl
    · rintro ⟨d, rest, begins, -⟩
      cases begins.symm.trans written
  · rw [rescanGreater, if_neg (by simpa [is] using isGreater)]
    refine ⟨mark, .of_not_lengthened is written stop
      (Punctuator.not_lengthened_of_read? reads isGreater) ?_⟩
    rintro ⟨d, rest, begins, digit⟩
    have alone : Punctuator.read? s.scan.start.rest = some (.question, '.' :: d :: rest) := by
      simp [begins, Punctuator.read?, digit]
    exact congrArg Prod.fst (Option.some.inj (reads.symm.trans alone))

/-- Behind a blank, `>>>=` is one operator and not four. -/
theorem readsLongest_shift :
    (ofText " >>>==".toList).scan.kind = .punctuator .greater ∧
      (ofText " >>>==".toList).scan.rescanGreater.ReadsLongest .shiftRightUnsignedEq := by
  have is : (ofText " >>>==".toList).scan.kind = .punctuator .greater := by decide +kernel
  obtain ⟨mark, reads⟩ := readsLongest_scan _ is
  have kind : (ofText " >>>==".toList).scan.rescanGreater.kind =
      .punctuator .shiftRightUnsignedEq := by
    decide +kernel
  obtain rfl := Kind.punctuator.inj (kind.symm.trans reads.kind)
  exact ⟨is, reads⟩

end Scanner
end LoopCapture.Token
