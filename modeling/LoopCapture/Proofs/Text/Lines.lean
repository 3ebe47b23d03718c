import LoopCapture.Text.LineMap
import Mathlib.Data.List.Basic

/-!
# The lines of a text

A text is divided into lines, each with the terminator that ends it. What ends lines besides a line
feed, with or without a carriage return before it, is left open: reports and editors differ in it.
-/

namespace LoopCapture.Text

/-- A line of a text: what it says and its terminator, which only the last line of a text lacks. -/
structure Line where
  text : List Char
  ending : List Char
deriving DecidableEq, Repr

namespace Line

def chars (l : Line) : List Char := l.text ++ l.ending

/-- The line with more text in front. -/
def prepend (before : List Char) (l : Line) : Line := { l with text := before ++ l.text }

/-- The line ends with a line feed, or with a carriage return and a line feed. -/
def IsPlain (l : Line) : Prop := l.ending = ['\n'] ∨ l.ending = ['\r', '\n']

end Line

/-- The lines of a text where a line feed, a carriage return together with the line feed after it,
and some other characters end lines. -/
def linesWith (others : Char → Bool) : List Char → List Line
  | [] => [⟨[], []⟩]
  | '\r' :: '\n' :: rest => ⟨[], ['\r', '\n']⟩ :: linesWith others rest
  | c :: rest =>
    if c = '\n' || others c then ⟨[], [c]⟩ :: linesWith others rest
    else (linesWith others rest).modifyHead (.prepend [c])

/-- The lines of a text. A lone carriage return ends a line, and so do the two separators. -/
def lines : List Char → List Line := linesWith isLineBreak

/-- The lines that only line feeds end, with or without a carriage return. -/
def rows : List Char → List Line := linesWith fun _ => false

example : lines "a\r\r\nb\u2028".toList =
    [⟨['a'], ['\r']⟩, ⟨[], ['\r', '\n']⟩, ⟨['b'], ['\u2028']⟩, ⟨[], []⟩] := by decide

variable {others : Char → Bool}

theorem linesWith_cons (c : Char) (cs : List Char) : linesWith others (c :: cs) =
    if c = '\r' ∧ cs.head? = some '\n' then ⟨[], ['\r', '\n']⟩ :: linesWith others cs.tail
    else if c = '\n' ∨ others c = true then ⟨[], [c]⟩ :: linesWith others cs
    else (linesWith others cs).modifyHead (.prepend [c]) := by
  split
  · rename_i h
    obtain ⟨rfl, first⟩ := h
    obtain ⟨rest, rfl⟩ := List.head?_eq_some_iff.mp first
    rfl
  · rename_i h
    rw [linesWith.eq_3]
    · simp
    · rintro rest rfl rfl
      exact h ⟨rfl, rfl⟩

/-- All lines but the last have a terminator. -/
inductive Ended : List Line → Prop where
  | last {l : Line} : l.ending = [] → Ended [l]
  | cons {l : Line} {rest : List Line} : l.ending ≠ [] → Ended rest → Ended (l :: rest)

theorem Ended.ne_nil {ls : List Line} (h : Ended ls) : ls ≠ [] := by
  cases h <;> exact List.cons_ne_nil _ _

theorem ended_cons {l : Line} {rest : List Line} (more : rest ≠ []) :
    Ended (l :: rest) ↔ l.ending ≠ [] ∧ Ended rest := by
  constructor
  · rintro (_ | ⟨ending, h⟩)
    · exact absurd rfl more
    · exact ⟨ending, h⟩
  · exact fun h => .cons h.1 h.2

theorem Ended.prepend {ls : List Line} (h : Ended ls) (before : List Char) :
    Ended (ls.modifyHead (.prepend before)) := by
  cases h with
  | last ending => exact .last ending
  | cons ending rest => exact .cons ending rest

theorem flatMap_chars_prepend {ls : List Line} (some : ls ≠ []) (before : List Char) :
    (ls.modifyHead (.prepend before)).flatMap Line.chars = before ++ ls.flatMap Line.chars := by
  cases ls with
  | nil => exact absurd rfl some
  | cons l rest => simp [Line.prepend, Line.chars]

theorem ended_linesWith (others : Char → Bool) (source : List Char) :
    Ended (linesWith others source) := by
  fun_induction linesWith others source with
  | case1 => exact .last rfl
  | case2 rest ih => exact .cons (by simp) ih
  | case3 c rest _ _ ih => exact .cons (by simp) ih
  | case4 c rest _ _ ih => exact ih.prepend [c]

/-- The lines make up the text. -/
theorem flatMap_chars_linesWith (others : Char → Bool) (source : List Char) :
    (linesWith others source).flatMap Line.chars = source := by
  fun_induction linesWith others source with
  | case1 => rfl
  | case2 rest ih => simp [Line.chars, ih]
  | case3 c rest _ _ ih => simp [Line.chars, ih]
  | case4 c rest _ _ ih =>
    rw [flatMap_chars_prepend (ended_linesWith others rest).ne_nil, ih, List.singleton_append]

theorem ended_lines (source : List Char) : Ended (lines source) :=
  ended_linesWith isLineBreak source

theorem flatMap_chars_lines (source : List Char) : (lines source).flatMap Line.chars = source :=
  flatMap_chars_linesWith isLineBreak source

/-- Where a cut of a text is among its lines: the lines in front of it, the line that it is in, and
what this line has in front of it. A cut after a terminator is at the start of the next line. -/
structure CutAt (ls : List Line) (before : List Char) (whole : List Line) (line : Line)
    (later : List Line) (part : List Char) : Prop where
  lines_eq : ls = whole ++ line :: later
  before_eq : before = whole.flatMap Line.chars ++ part
  within : part <+: line.chars
  unended : part = line.chars → line.ending = []

variable {ls whole later : List Line} {line : Line} {before part : List Char}

theorem CutAt.cons (h : CutAt ls before whole line later part) (l : Line) :
    CutAt (l :: ls) (l.chars ++ before) (l :: whole) line later part where
  lines_eq := congrArg (l :: ·) h.lines_eq
  before_eq := by rw [h.before_eq, List.flatMap_cons, List.append_assoc]
  within := h.within
  unended := h.unended

theorem CutAt.front (h : CutAt ls before whole line later part) :
    before <+: ls.flatMap Line.chars := by
  rw [h.before_eq, h.lines_eq, List.flatMap_append, List.flatMap_cons, List.prefix_append_right_inj]
  exact h.within.trans (List.prefix_append _ _)

theorem CutAt.mem (h : CutAt ls before whole line later part) : ∀ l ∈ whole ++ [line], l ∈ ls := by
  intro l mem
  rw [h.lines_eq]
  exact List.IsPrefix.subset ⟨later, by simp⟩ mem

/-- Every cut of a text is somewhere among its lines. -/
theorem Ended.exists_cutAt (h : Ended ls) (front : before <+: ls.flatMap Line.chars) :
    ∃ whole line later part, CutAt ls before whole line later part := by
  induction h generalizing before with
  | @last l ending =>
    exact ⟨[], l, [], before, rfl, rfl, by simpa using front, fun _ => ending⟩
  | @cons l rest ending _ ih =>
    rw [List.flatMap_cons] at front
    by_cases passed : l.chars <+: before
    · obtain ⟨beyond, rfl⟩ := passed
      obtain ⟨whole, line, later, part, cut⟩ := ih ((List.prefix_append_right_inj _).mp front)
      exact ⟨_, line, later, part, cut.cons l⟩
    · have within := (List.prefix_or_prefix_of_prefix front (List.prefix_append _ _)).resolve_right
        passed
      exact ⟨[], l, rest, before, rfl, rfl, within, fun all => absurd ⟨[], by simp [all]⟩ passed⟩

/-- What stands in front of other lines has its terminator. -/
theorem Ended.ending_ne_nil (h : Ended (whole ++ line :: later)) : ∀ l ∈ whole, l.ending ≠ [] := by
  induction whole with
  | nil => simp
  | cons first rest ih =>
    obtain ⟨ending, h⟩ := (ended_cons (by simp)).mp h
    exact List.forall_mem_cons.mpr ⟨ending, ih h⟩

theorem Ended.ending_eq_nil_iff (h : Ended (whole ++ line :: later)) :
    line.ending = [] ↔ later = [] := by
  induction whole with
  | nil =>
    cases h with
    | last ending => simp [ending]
    | cons ending rest => simp [ending, rest.ne_nil]
  | cons first rest ih => exact ih ((ended_cons (by simp)).mp h).2

/-- Text in which nothing ends a line goes in front of the first line. A carriage return at its end
must not meet a line feed. -/
theorem linesWith_append {front rest : List Char}
    (goesOn : ∀ c ∈ front, c ≠ '\n' ∧ others c = false)
    (apart : front.getLast? = some '\r' → rest.head? ≠ some '\n') :
    linesWith others (front ++ rest) = (linesWith others rest).modifyHead (.prepend front) := by
  induction front with
  | nil =>
    rw [List.nil_append]
    cases linesWith others rest <;> rfl
  | cons c front ih =>
    obtain ⟨⟨notFeed, notOther⟩, goesOn⟩ := List.forall_mem_cons.mp goesOn
    have alone : ¬ (c = '\r' ∧ (front ++ rest).head? = some '\n') := by
      cases front with
      | nil => simpa using apart
      | cons d front => simpa using fun _ => (List.forall_mem_cons.mp goesOn).1.1
    have inner := ih goesOn fun last => apart (by simp [List.getLast?_cons, last])
    rw [List.cons_append, linesWith_cons, if_neg alone, if_neg (by simp [notFeed, notOther]), inner]
    cases linesWith others rest <;> rfl

/-- As far as only line feeds end lines, with or without a carriage return, it makes no difference
what else would end them. -/
theorem prefix_rows {front : List Line} {source : List Char}
    (among : front <+: linesWith others source)
    (plain : ∀ l ∈ front, l.ending = [] ∨ l.IsPlain) : front <+: rows source := by
  fun_induction linesWith others source generalizing front with
  | case1 => exact among
  | case2 rest ih =>
    cases front with
    | nil => exact List.nil_prefix
    | cons l front =>
      obtain ⟨rfl, more⟩ := List.cons_prefix_cons.mp among
      exact List.cons_prefix_cons.mpr ⟨rfl, ih more (List.forall_mem_cons.mp plain).2⟩
  | case3 c rest apart _ ih =>
    cases front with
    | nil => exact List.nil_prefix
    | cons l front =>
      obtain ⟨rfl, more⟩ := List.cons_prefix_cons.mp among
      obtain ⟨here, later⟩ := List.forall_mem_cons.mp plain
      obtain rfl : c = '\n' := by simpa [Line.IsPlain] using here
      exact List.cons_prefix_cons.mpr ⟨rfl, ih more later⟩
  | case4 c rest apart goesOn ih =>
    have here : rows (c :: rest) = (rows rest).modifyHead (.prepend [c]) := by
      have notFeed : c ≠ '\n' := by simp_all
      rw [rows, linesWith.eq_3 _ _ _ apart, if_neg (by simp [notFeed])]
    cases front with
    | nil => exact List.nil_prefix
    | cons l front =>
      obtain ⟨m, ms, is⟩ := List.exists_cons_of_ne_nil (ended_linesWith others rest).ne_nil
      rw [is, List.modifyHead_cons] at among
      obtain ⟨rfl, more⟩ := List.cons_prefix_cons.mp among
      have inner : m :: front <+: linesWith others rest :=
        is ▸ List.cons_prefix_cons.mpr ⟨rfl, more⟩
      obtain ⟨beyond, is'⟩ := ih inner (List.forall_mem_cons.mpr (List.forall_mem_cons.mp plain))
      rw [here, ← is']
      exact ⟨beyond, rfl⟩

theorem rows_append (front rest : List Char) (single : '\n' ∉ front)
    (apart : front.getLast? = some '\r' → rest.head? ≠ some '\n') :
    rows (front ++ rest) = (rows rest).modifyHead (.prepend front) :=
  linesWith_append (fun _ mem => ⟨fun is => single (is ▸ mem), rfl⟩) apart

/-- A text that is given backwards without a carriage return at its end. -/
def withoutReturn (acc : List Char) : List Char :=
  match acc with
  | '\r' :: rest => rest
  | _ => acc

/-- A line feed ends a row, together with a carriage return before it. -/
theorem rows_append_newline {acc : List Char} (single : '\n' ∉ acc) (rest : List Char) :
    ∃ ending, ending ≠ [] ∧ rows (acc.reverse ++ '\n' :: rest) =
      ⟨(withoutReturn acc).reverse, ending⟩ :: rows rest := by
  fun_cases withoutReturn acc with
  | case1 acc =>
    have split : ('\r' :: acc).reverse ++ '\n' :: rest =
        acc.reverse ++ '\r' :: '\n' :: rest := by simp
    have inner := rows_append acc.reverse ('\r' :: '\n' :: rest)
      (by simpa using single) (by simp)
    refine ⟨['\r', '\n'], by simp, ?_⟩
    rw [split, inner]
    simp [rows, linesWith, Line.prepend]
  | case2 _ other =>
    have last : acc.head? ≠ some '\r' := by
      intro is
      obtain ⟨acc, rfl⟩ := List.head?_eq_some_iff.mp is
      exact other acc rfl
    have inner := rows_append acc.reverse ('\n' :: rest) (by simpa using single)
      (by simp [last])
    refine ⟨['\n'], by simp, ?_⟩
    rw [inner]
    simp [rows, linesWith, Line.prepend]

instance : DecidablePred Line.IsPlain := fun _ => inferInstanceAs (Decidable (_ ∨ _))

theorem mem_linesWith {l : Line} {source : List Char} (mem : l ∈ linesWith others source) :
    '\n' ∉ l.text ∧ (l.ending = [] ∨ l.IsPlain ∨
      ∃ c, c ≠ '\n' ∧ others c = true ∧ l.ending = [c]) := by
  fun_induction linesWith others source generalizing l with
  | case1 => simp_all
  | case2 rest ih =>
    obtain rfl | mem := List.mem_cons.mp mem
    · exact ⟨List.not_mem_nil, .inr (.inl (.inr rfl))⟩
    · exact ih mem
  | case3 c rest _ ends ih =>
    obtain rfl | mem := List.mem_cons.mp mem
    · refine ⟨List.not_mem_nil, .inr ?_⟩
      by_cases feed : c = '\n'
      · exact .inl (.inl (by rw [feed]))
      · exact .inr ⟨c, feed, by simpa [feed] using ends, rfl⟩
    · exact ih mem
  | case4 c rest _ goesOn ih =>
    obtain ⟨m, ms, is⟩ := List.exists_cons_of_ne_nil (ended_linesWith others rest).ne_nil
    rw [is] at mem ih
    obtain rfl | mem := List.mem_cons.mp mem
    · obtain ⟨single, ending⟩ := ih List.mem_cons_self
      refine ⟨?_, ending⟩
      simp only [Bool.or_eq_true, decide_eq_true_eq, not_or] at goesOn
      simp [Line.prepend, single, Ne.symm goesOn.1]
    · exact ih (List.mem_cons_of_mem _ mem)

theorem count_chars {l : Line} {source : List Char} (mem : l ∈ linesWith others source) :
    l.chars.count '\n' = if l.IsPlain then 1 else 0 := by
  obtain ⟨single, ending⟩ := mem_linesWith mem
  have ofText := List.count_eq_zero_of_not_mem single
  obtain none | plain | ⟨c, other, -, is⟩ := ending
  · simp [Line.chars, Line.IsPlain, none, ofText]
  · rw [if_pos plain]
    obtain is | is := plain <;> simp [Line.chars, is, ofText]
  · simp [Line.chars, Line.IsPlain, is, ofText, other]

theorem count_flatMap_chars {front : List Line} {source : List Char}
    (among : ∀ l ∈ front, l ∈ linesWith others source) :
    (front.flatMap Line.chars).count '\n' = front.countP (·.IsPlain) := by
  induction front with
  | nil => rfl
  | cons l rest ih =>
    obtain ⟨here, later⟩ := List.forall_mem_cons.mp among
    rw [List.flatMap_cons, List.count_append, ih later, count_chars here, List.countP_cons,
      Nat.add_comm]
    simp

/-- The line feeds in front of a cut are those of the lines in front of it. -/
theorem CutAt.count_newline {source : List Char}
    (cut : CutAt (linesWith others source) before whole line later part) :
    before.count '\n' = whole.countP (·.IsPlain) := by
  have ofPart : part.count '\n' = 0 := by
    obtain ⟨rest, split⟩ := cut.within
    have total := count_chars (cut.mem line (by simp))
    rw [← split, List.count_append] at total
    by_cases plain : line.IsPlain
    · have ending : line.ending.getLast? = some '\n' := by
        obtain is | is := plain <;> rw [is] <;> rfl
      have more : rest ≠ [] := by
        rintro rfl
        rw [cut.unended (by simpa using split)] at ending
        cases ending
      have last : rest.getLast? = some '\n' := by
        rw [← List.getLast?_append_of_ne_nil part more, split, Line.chars, List.getLast?_append,
          ending, Option.some_or]
      have feed := List.one_le_count_iff.mpr (List.mem_of_getLast? last)
      rw [if_pos plain] at total
      omega
    · rw [if_neg plain] at total
      omega
  rw [cut.before_eq, List.count_append, ofPart, Nat.add_zero]
  exact count_flatMap_chars fun l mem => cut.mem l (List.mem_append_left _ mem)

/-- The row that a cut is in is as many rows above the line as there are terminators in front of it
that are not line feeds. -/
theorem CutAt.exists_row {source : List Char}
    (cut : CutAt (lines source) before whole line later part) :
    ∃ above row below part, CutAt (rows source) before above row below part ∧
      whole.length = above.length + whole.countP (¬ ·.IsPlain) := by
  have ended : Ended (rows source) := ended_linesWith _ source
  have front : before <+: (rows source).flatMap Line.chars := by
    rw [rows, flatMap_chars_linesWith]
    exact flatMap_chars_lines source ▸ cut.front
  obtain ⟨above, row, below, part, cut'⟩ := ended.exists_cutAt front
  refine ⟨above, row, below, part, cut', ?_⟩
  have plain : above.countP (·.IsPlain) = above.length := by
    refine List.countP_eq_length.mpr fun l mem => decide_eq_true ?_
    have terminated := (cut'.lines_eq ▸ ended).ending_ne_nil l mem
    have among := cut'.mem l (List.mem_append_left _ mem)
    obtain ⟨-, none | plain | ⟨c, -, other, -⟩⟩ := mem_linesWith among
    · exact absurd none terminated
    · exact plain
    · cases other
  have total := List.length_eq_countP_add_countP (·.IsPlain) (l := whole)
  rw [← plain, ← CutAt.count_newline cut', CutAt.count_newline cut, total]
  simp

/-- A line up to which only line feeds end lines is a row. -/
theorem CutAt.getElem?_rows {source : List Char}
    (cut : CutAt (lines source) before whole line later part)
    (plain : ∀ l ∈ whole ++ [line], l.ending = [] ∨ l.IsPlain) :
    (rows source)[whole.length]? = some line := by
  have among : whole ++ [line] <+: lines source := ⟨later, by simp [cut.lines_eq]⟩
  obtain ⟨rest, is⟩ := prefix_rows among plain
  simp [← is]

end LoopCapture.Text
