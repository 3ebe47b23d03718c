import LoopCapture.Proofs.Report.Snippet
import Mathlib.Data.Nat.Digits.Defs

/-!
# The marks in a snippet

The marks below a line are put by columns, which count UTF-16 units, behind as many blanks as the
gutter of a number with up to three digits has. So they are below the characters of the span as long
as these and the ones in front take one unit each and the line has such a number.
-/

namespace LoopCapture.Report
open Text

/-- Where a row has tildes. -/
def tildes (row : List Char) : List Nat :=
  (List.range row.length).filter fun i => row[i]? = some '~'

/-- Which characters of a text that begins at the given offset have theirs between two others. -/
def spanned (text : List Char) (offset start stop : Offset) : List Nat :=
  (List.range text.length).filter fun i =>
    start ≤ offset + byteSize (text.take i) ∧ offset + byteSize (text.take i) < stop

/-- Which places of a line are to be marked: those of the characters that a diagnostic spans, or
that of its start when there are none. -/
def marked (d : Diagnostic) (whole : List Line) (line : Line) (part : List Char) : List Nat :=
  let spanned := spanned line.text (byteSize (whole.flatMap Line.chars)) d.start
    (d.start + d.length)
  if spanned = [] then [part.length] else spanned

/-- What is printed of a diagnostic ends in the given text behind the gutter and a row that has its
tildes below the given places of the text. -/
def Marks (d : Diagnostic) (place : Place) (text : List Char) (places : List Nat)
    (printed : String) :
    Prop :=
  ∃ row, printed = heading false d place ++ ": " ++ d.text ++ "\n" ++ gutter place.line ++
      String.ofList text ++ "\n" ++ row ∧
    tildes row.toList = places.map ((gutter place.line).length + ·)

/-- Columns count characters as far as it makes a difference to the marks: the span begins at the
end of the text, or no character in front of it takes two units and, when it ends within the text,
none in it. -/
def CountsCharacters (text part middle : List Char) : Prop :=
  part = text ∨ part.length < text.length ∧ (∀ c ∈ part, unitCount c = 1) ∧
    (text.length ≤ part.length + middle.length ∨ ∀ c ∈ middle, unitCount c = 1)

/-- What is printed of a diagnostic that begins in the given line behind the given ones, after the
given part of it. -/
structure MarksSpan (d : Diagnostic) (whole : List Line) (line : Line) (part middle : List Char)
    (place : Place) (printed : String) : Prop where
  line_eq : place.line = whole.length + 1
  none_shown : line.chars = [] → printed = heading false d place ++ ": " ++ d.text
  marks_iff_counts : line.chars ≠ [] → place.line < 1000 →
    (Marks d place line.text (marked d whole line part) printed ↔
      CountsCharacters line.text part middle)
  marks_iff_fits : line.chars ≠ [] → CountsCharacters line.text part middle →
    (Marks d place line.text (marked d whole line part) printed ↔ place.line < 1000)

variable {source before middle part : List Char} {whole later : List Line} {line : Line}

/-- What stands in the row of marks below a character in front of the marks. -/
def spaceBelow (c : Char) : Char := if c = '\t' then '\t' else ' '

/-- The column after the last mark, counted from zero, below a line that ends in the given column.
-/
def markStop (start stop : Place) (length : Nat) : Nat :=
  if start.line < stop.line then length else stop.column - 1

theorem marks_of_le {start stop : Place} {k : Nat} (reached : start.column ≤ k + 1)
    (line : List Char) :
    marks start stop (k + 1) line =
      List.replicate (min (k + line.length) (markStop start stop (k + line.length)) - k) '~' := by
  induction line generalizing k with
  | nil =>
    have none : min k (markStop start stop k) - k = 0 := by omega
    simp [marks, none]
  | cons c cs ih =>
    have length : k + (c :: cs).length = k + 1 + cs.length := by
      simp only [List.length_cons]
      omega
    rw [marks, if_neg (Nat.not_lt.mpr reached), ih (Nat.le_succ_of_le reached), length]
    simp only [Bool.or_eq_true, decide_eq_true_eq]
    by_cases goesOn : start.line < stop.line ∨ k + 1 < stop.column
    · have more : k < markStop start stop (k + 1 + cs.length) := by
        unfold markStop
        split <;> omega
      obtain ⟨n, is⟩ : ∃ n, min (k + 1 + cs.length) (markStop start stop (k + 1 + cs.length)) =
          k + 1 + n := Nat.exists_eq_add_of_le (by omega)
      rw [if_pos goesOn, is, Nat.add_sub_cancel_left, Nat.add_assoc, Nat.add_sub_cancel_left,
        Nat.add_comm, List.replicate_succ]
    · have none : markStop start stop (k + 1 + cs.length) ≤ k := by
        rw [markStop, if_neg fun later => goesOn (.inl later)]
        omega
      rw [if_neg goesOn, Nat.sub_eq_zero_of_le (Nat.le_trans (Nat.min_le_right _ _) none),
        List.replicate_zero]

theorem marks_succ (start stop : Place) (k : Nat) (line : List Char) :
    marks start stop (k + 1) line =
      (line.take (start.column - 1 - k)).map spaceBelow ++
        List.replicate (min (k + line.length) (markStop start stop (k + line.length)) -
          max (start.column - 1) k) '~' := by
  induction line generalizing k with
  | nil =>
    have none : min k (markStop start stop k) - max (start.column - 1) k = 0 := by omega
    simp [marks, none]
  | cons c cs ih =>
    by_cases reached : start.column ≤ k + 1
    · have gap : start.column - 1 - k = 0 := by omega
      have first : max (start.column - 1) k = k := by omega
      rw [marks_of_le reached, gap, first, List.take_zero, List.map_nil, List.nil_append]
    · have gap : start.column - 1 - k = start.column - 1 - (k + 1) + 1 := by omega
      have first : max (start.column - 1) k = max (start.column - 1) (k + 1) := by omega
      have length : k + (c :: cs).length = k + 1 + cs.length := by
        simp only [List.length_cons]
        omega
      rw [marks, if_pos (Nat.not_le.mp reached), ih, gap, first, length, List.take_succ_cons,
        List.map_cons, List.cons_append]
      rfl

theorem unmarked_map (front : List Char) : '~' ∉ front.map spaceBelow := by
  intro mem
  obtain ⟨c, -, is⟩ := List.mem_map.mp mem
  unfold spaceBelow at is
  split at is <;> cases is

/-- The row below a line: what takes the place of the characters in front, and at least one mark. -/
theorem underline_eq (start stop : Place) (line : List Char) :
    underline start stop line =
      (line.take (start.column - 1)).map spaceBelow ++
        List.replicate (max 1 (min line.length (markStop start stop line.length) -
          (start.column - 1))) '~' := by
  have marked := marks_succ start stop 0 line
  simp only [Nat.zero_add, Nat.sub_zero, Nat.max_zero] at marked
  have gap := unmarked_map (line.take (start.column - 1))
  rw [underline, marked]
  generalize (line.take (start.column - 1)).map spaceBelow = front at gap
  generalize min line.length (markStop start stop line.length) - (start.column - 1) = n
  cases n with
  | zero => simp [gap]
  | succ n => simp

theorem tildes_append {front : List Char} (unmarked : '~' ∉ front) (n : Nat) :
    tildes (front ++ List.replicate n '~') = List.range' front.length n := by
  have split : List.range (front.length + n) =
      List.range front.length ++ List.range' front.length n := by
    rw [List.range_eq_range', List.range_eq_range', ← List.range'_append_1, Nat.zero_add]
  rw [tildes, List.length_append, List.length_replicate, split, List.filter_append,
    List.filter_eq_nil_iff.mpr, List.filter_eq_self.mpr, List.nil_append]
  · intro i mem
    obtain ⟨after, before⟩ := List.mem_range'_1.mp mem
    rw [decide_eq_true_eq, List.getElem?_append_right after, List.getElem?_replicate,
      if_pos (by omega)]
  · intro i mem
    rw [decide_eq_true_eq, List.getElem?_append_left (List.mem_range.mp mem)]
    exact fun is => unmarked (List.mem_of_getElem? is)

theorem filter_range (n p q : Nat) :
    ((List.range n).filter fun i => p ≤ i ∧ i < q) = List.range' p (min n q - p) := by
  induction n with
  | zero => simp
  | succ n ih =>
    rw [List.range_succ, List.filter_append, ih, List.filter_singleton]
    by_cases inside : p ≤ n ∧ n < q
    · have last : p + (n - p) = n := Nat.add_sub_cancel' inside.1
      have length : min n q - p = n - p := by omega
      have length' : min (n + 1) q - p = n - p + 1 := by omega
      rw [length, length', List.range'_concat, Nat.one_mul, last]
      simp [inside]
    · have length : min (n + 1) q - p = min n q - p := by omega
      rw [length]
      simp [inside]

theorem spanned_eq {text rest part span : List Char} (offset : Offset)
    (front : part ++ span <+: text ++ rest) :
    spanned text offset (offset + byteSize part) (offset + byteSize (part ++ span)) =
      List.range' part.length (min text.length (part.length + span.length) - part.length) := by
  rw [spanned, ← filter_range]
  refine List.filter_congr fun i mem => ?_
  have length : (text.take i).length = i :=
    List.length_take_of_le (Nat.le_of_lt (List.mem_range.mp mem))
  have front' : text.take i <+: text ++ rest :=
    (List.take_prefix i text).trans (List.prefix_append _ _)
  have fromStart := byteSize_lt_iff_length_lt front' ((List.prefix_append part span).trans front)
  have toStop := byteSize_lt_iff_length_lt front' front
  rw [length] at fromStart toStop
  rw [List.length_append] at toStop
  rw [decide_eq_decide, Nat.add_le_add_iff_left, Nat.add_lt_add_iff_left, toStop, ← Nat.not_lt,
    fromStart, Nat.not_lt]

theorem length_padded (n : Nat) : (padded n).length = max 3 (toString n).length := by
  rw [padded, String.length_append, String.length_ofList, List.length_replicate]
  omega

/-- The gutter is as wide as the blanks in front of the marks up to the number 999. -/
theorem length_gutter (n : Nat) : 8 ≤ (gutter n).length ∧ ((gutter n).length = 8 ↔ n < 1000) := by
  have digits : (toString n).length ≤ 3 ↔ n < 1000 := by
    rw [show toString n = String.ofList (Nat.toDigits 10 n) from rfl, String.length_ofList,
      Nat.length_toDigits_le_iff (by decide) (by decide)]
  have length : (gutter n).length = 2 + max 3 (toString n).length + 3 := by
    rw [gutter, String.length_append, String.length_append, length_padded]
    rfl
  omega

theorem tildes_underline (start stop : Place) (text : List Char) :
    tildes ("        " ++ String.ofList (underline start stop text)).toList =
      List.range' (8 + min (start.column - 1) text.length)
        (max 1 (min text.length (markStop start stop text.length) - (start.column - 1))) := by
  have blanks : "        ".toList = List.replicate 8 ' ' := by decide
  have front : '~' ∉ List.replicate 8 ' ' ++ (text.take (start.column - 1)).map spaceBelow := by
    rw [List.mem_append, not_or]
    exact ⟨by decide, unmarked_map _⟩
  rw [String.toList_append, blanks, String.toList_ofList, underline_eq, ← List.append_assoc,
    tildes_append front, List.length_append, List.length_replicate, List.length_map,
    List.length_take]

theorem marked_eq {d : Diagnostic} (cut : CutAt (lines source) before whole line later part)
    (span : before ++ middle <+: source) (start : d.start = byteSize before)
    (stop : d.start + d.length = byteSize (before ++ middle)) :
    marked d whole line part = List.range' part.length
      (max 1 (min line.text.length (part.length + middle.length) - part.length)) := by
  have front : part ++ middle <+: line.text ++ (line.ending ++ later.flatMap Line.chars) := by
    rw [← flatMap_chars_lines source, cut.lines_eq, cut.before_eq, List.flatMap_append,
      List.append_assoc, List.prefix_append_right_inj, List.flatMap_cons, Line.chars,
      List.append_assoc] at span
    exact span
  have spanned := spanned_eq (byteSize (whole.flatMap Line.chars)) front
  rw [← byteSize_append, ← cut.before_eq, ← byteSize_append, ← List.append_assoc, ← cut.before_eq,
    ← start, ← stop] at spanned
  rw [marked, spanned]
  generalize min line.text.length (part.length + middle.length) - part.length = n
  cases n with
  | zero => simp
  | succ n => simp [List.range'_succ]

/-- The column in which the marks end, told by the characters of the span. -/
theorem markStop_eq (cut : CutAt (lines source) before whole line later part)
    {after : List Char} (split : source = before ++ middle ++ after) (n : Nat) :
    (markStop ((LineMap.ofText source).place source (byteSize before))
        ((LineMap.ofText source).place source (byteSize (before ++ middle))) n = n ∧
      line.chars.length ≤ part.length + middle.length) ∨
    markStop ((LineMap.ofText source).place source (byteSize before))
        ((LineMap.ofText source).place source (byteSize (before ++ middle))) n =
      utf16Size part + utf16Size middle := by
  subst split
  obtain ⟨whole', line', later', part', cut'⟩ := exists_cutAt (before ++ middle) after
  rw [place_eq cut, place_eq cut', markStop]
  obtain ⟨rfl, rfl⟩ | further := cut.same_or_later (ended_lines _) cut'
  · simp [utf16Size_append]
  · obtain ⟨more, rfl⟩ := further
    have front := cut'.before_eq
    rw [cut.before_eq] at front
    simp only [List.flatMap_append, List.flatMap_cons, List.flatMap_nil, List.append_assoc,
      List.append_cancel_left_eq, List.append_nil] at front
    have length := congrArg List.length front
    simp only [List.length_append] at length
    refine .inl ⟨if_pos (by simp), by omega⟩

/-- What decides whether the tildes are below the places to be marked: where the first one is and
how many there are. -/
theorem marks_iff_range {d : Diagnostic} {after : List Char}
    (cut : CutAt (lines source) before whole line later part)
    (split : source = before ++ middle ++ after) (start : d.start = byteSize before)
    (stop : d.start + d.length = byteSize (before ++ middle))
    (shown : (rows source)[whole.length]?.bind shown? = some line.text) :
    Marks d ((LineMap.ofText source).place source d.start) line.text (marked d whole line part)
        (diagnosticText false (.ofText source) d source) ↔
      8 + min (utf16Size part) line.text.length = (gutter (whole.length + 1)).length + part.length ∧
      max 1 (min line.text.length (markStop ((LineMap.ofText source).place source d.start)
        ((LineMap.ofText source).place source (d.start + d.length)) line.text.length) -
          utf16Size part) =
        max 1 (min line.text.length (part.length + middle.length) - part.length) := by
  have place := place_eq cut
  rw [← start] at place
  have printed := diagnosticText_of_some false (by rw [place]) shown
  have places := marked_eq cut (split ▸ List.prefix_append _ _) start stop
  have row : ∀ text, styled false underlineStyle text = text := fun _ => rfl
  rw [Marks, printed, places, List.map_add_range', place]
  simp only [String.append_right_inj, exists_eq_left', row, tildes_underline, List.range'_inj,
    Nat.add_sub_cancel]
  rw [or_iff_right (by omega), and_comm]

theorem countsCharacters_iff (within : part <+: line.chars) :
    CountsCharacters line.text part middle ↔
      part.length = line.text.length ∨ part.length < line.text.length ∧
        utf16Size part = part.length ∧ (line.text.length ≤ part.length + middle.length ∨
          utf16Size middle = middle.length) := by
  have same : part = line.text ↔ part.length = line.text.length :=
    ⟨congrArg List.length, fun same =>
      (List.prefix_of_prefix_length_le within (List.prefix_append _ _) same.le).eq_of_length same⟩
  rw [CountsCharacters, same, utf16Size_eq_length_iff, utf16Size_eq_length_iff]

/-- In a text whose lines only line feeds end, the marks of a diagnostic are where its span is,
exactly when columns count characters as far as it makes a difference and the number of the line
fits the gutter. -/
theorem marksSpan_ofText {maps : LineMaps} {d : Diagnostic} {after : List Char}
    (serves : Serves maps d.file (before ++ middle ++ after)) (start : d.start = byteSize before)
    (stop : d.start + d.length = byteSize (before ++ middle))
    (plain : ∀ l ∈ lines (before ++ middle ++ after), l.ending = [] ∨ l.IsPlain) :
    ∃ whole line later part,
      CutAt (lines (before ++ middle ++ after)) before whole line later part ∧
      MarksSpan d whole line part middle
        ((LineMap.ofText (before ++ middle ++ after)).place (before ++ middle ++ after) d.start)
        (showDiagnostic false maps d (before ++ middle ++ after)).1 := by
  generalize split : before ++ middle ++ after = source at *
  obtain ⟨whole, line, later, part, cut⟩ := exists_cutAt before (middle ++ after)
  rw [← List.append_assoc, split] at cut
  have index : ((LineMap.ofText source).place source d.start).line = whole.length + 1 := by
    rw [start, place_eq cut]
  have row := cut.getElem?_rows fun l mem => plain l (cut.mem l mem)
  have shown : line.chars ≠ [] → (rows source)[whole.length]?.bind shown? = some line.text :=
    fun some => by rw [row, Option.bind_some, shown?, if_neg some]
  have fits := length_gutter (whole.length + 1)
  have wide := length_le_utf16Size part
  have wide' := length_le_utf16Size middle
  have empty : middle.length = 0 → utf16Size middle = 0 := fun none => by
    rw [List.length_eq_zero_iff.mp none, utf16Size]
  have inLine : line.text.length ≤ line.chars.length := (List.prefix_append _ _).length_le
  have atStop := markStop_eq cut split.symm line.text.length
  rw [← stop, ← start] at atStop
  rw [fst_showDiagnostic serves]
  refine ⟨whole, line, later, part, cut, index, fun none => ?_, fun some few => ?_,
    fun some counts => ?_⟩
  · exact diagnosticText_of_none false index (by rw [row, Option.bind_some, shown?, if_pos none])
  · have eight : (gutter (whole.length + 1)).length = 8 := fits.2.mpr (index ▸ few)
    rw [marks_iff_range cut split.symm start stop (shown some), eight,
      countsCharacters_iff cut.within]
    obtain ⟨atEnd, beyond⟩ | inside := atStop <;> omega
  · rw [countsCharacters_iff cut.within] at counts
    rw [marks_iff_range cut split.symm start stop (shown some), index, ← fits.2]
    omega

/-- Behind a character of two units the mark is one place too far to the right. -/
theorem not_marks_behind_rocket :
    let d : Diagnostic := ⟨"a.ts", 5, 1, "m", .error, 1, none⟩
    let source := "🚀 ".toList ++ "b".toList ++ []
    Serves [] d.file source ∧ d.start = byteSize "🚀 ".toList ∧
      d.start + d.length = byteSize ("🚀 ".toList ++ "b".toList) ∧
      (∀ l ∈ lines source, l.ending = [] ∨ l.IsPlain) ∧
      marked d [] ⟨"🚀 b".toList, []⟩ "🚀 ".toList = [2] ∧
      ¬ Marks d ⟨1, 4⟩ "🚀 b".toList [2] (showDiagnostic false [] d source).1 := by
  intro d source
  have serves : Serves [] d.file source := nofun
  have start : d.start = byteSize "🚀 ".toList := by decide
  have stop : d.start + d.length = byteSize ("🚀 ".toList ++ "b".toList) := by decide
  have plain : ∀ l ∈ lines source, l.ending = [] ∨ l.IsPlain := by decide
  have places : marked d [] ⟨"🚀 b".toList, []⟩ "🚀 ".toList = [2] := by decide
  refine ⟨serves, start, stop, plain, places, ?_⟩
  obtain ⟨whole, line, later, part, cut, marks⟩ := marksSpan_ofText serves start stop plain
  have all : lines source = [⟨"🚀 b".toList, []⟩] := by decide
  have lines_eq := all.symm.trans cut.lines_eq
  obtain ⟨rfl, rfl, rfl⟩ : whole = [] ∧ line = ⟨"🚀 b".toList, []⟩ ∧ later = [] := by
    cases whole with
    | nil => simpa [eq_comm] using lines_eq
    | cons _ _ => simp at lines_eq
  obtain rfl : "🚀 ".toList = part := cut.before_eq
  have place : (LineMap.ofText source).place source d.start = ⟨1, 4⟩ := by decide
  rw [place] at marks
  have iff := marks.marks_iff_counts (by decide) (by decide)
  rw [places] at iff
  refine mt iff.mp ?_
  rintro (atEnd | ⟨-, single, -⟩)
  · exact absurd atEnd (by decide)
  · exact absurd (single '🚀' (by decide)) (by decide)

end LoopCapture.Report
