import LoopCapture.Proofs.Text.Cutting
import LoopCapture.Proofs.Text.Lines
import Mathlib.Data.List.TakeWhile

/-!
# The place of an offset

The line of an offset is told by the terminators that end up to it, and its column by the UTF-16
units from the last of them on. So a later offset is shown at a later place, and no two at the same.
-/

namespace LoopCapture.Text

/-- Where the terminators of some lines end, the first of which begins at the given offset. -/
def endsFrom : Offset → List Line → List Offset
  | _, [] => []
  | offset, l :: rest =>
    let next := offset + byteSize l.chars
    if l.ending = [] then endsFrom next rest else next :: endsFrom next rest

/-- Where the line terminators of a text end. -/
def terminatorEnds (source : List Char) : List Offset := endsFrom 0 (lines source)

/-- The line is one more than the number of terminators that end up to the offset, the column one
more than the number of units from the end of the last of them to the offset. -/
structure ShowsOffset (source : List Char) (offset : Offset) (place : Place) : Prop where
  line_eq : place.line = 1 + (terminatorEnds source).countP (· ≤ offset)
  column_eq : ∃ before between after, source = before ++ between ++ after ∧
    byteSize before = ((terminatorEnds source).filter (· ≤ offset)).getLastD 0 ∧
    byteSize (before ++ between) = offset ∧ place.column = 1 + utf16Size between

/-- The first place comes before the other one, in an earlier line or in the same line. -/
def Place.Precedes (p q : Place) : Prop := p.line < q.line ∨ p.line = q.line ∧ p.column < q.column

/-- Places tell where the cuts of a text are, and come in the order of the cuts. -/
structure ShowsOffsets (source : List Char) (place : Offset → Place) : Prop where
  shows : ∀ before after, source = before ++ after →
    ShowsOffset source (byteSize before) (place (byteSize before))
  increasing : ∀ before between after, source = before ++ between ++ after → between ≠ [] →
    (place (byteSize before)).Precedes (place (byteSize (before ++ between)))

example : terminatorEnds "a\r\r\nb\u2028".toList = [2, 4, 8] := by decide

def startsFrom : Offset → List Line → List Offset
  | _, [] => []
  | offset, l :: rest => offset :: startsFrom (offset + byteSize l.chars) rest

variable {ls whole later : List Line} {line : Line} {before part source : List Char}
    {offset : Offset}

theorem startsFrom_append (offset : Offset) (a b : List Line) :
    startsFrom offset (a ++ b) =
      startsFrom offset a ++ startsFrom (offset + byteSize (a.flatMap Line.chars)) b := by
  induction a generalizing offset with
  | nil => rfl
  | cons l rest ih =>
    rw [List.cons_append, startsFrom, startsFrom, ih, List.flatMap_cons, byteSize_append,
      Nat.add_assoc, List.cons_append]

theorem length_startsFrom (offset : Offset) (ls : List Line) :
    (startsFrom offset ls).length = ls.length := by
  induction ls generalizing offset with
  | nil => rfl
  | cons l rest ih => rw [startsFrom, List.length_cons, List.length_cons, ih]

theorem le_of_mem_startsFrom {start : Offset} (mem : start ∈ startsFrom offset ls) :
    start ≤ offset + byteSize (ls.flatMap Line.chars) := by
  induction ls generalizing offset with
  | nil => cases mem
  | cons l rest ih =>
    rw [List.flatMap_cons, byteSize_append]
    obtain rfl | mem := List.mem_cons.mp mem
    · exact Nat.le_add_right _ _
    · exact Nat.add_assoc .. ▸ ih mem

/-- More text in front of the first line leaves the other starts where they are. -/
theorem startsFrom_prepend (some : ls ≠ []) (before : List Char) (offset : Offset) :
    startsFrom offset (ls.modifyHead (.prepend before)) =
      offset :: (startsFrom (offset + byteSize before) ls).tail := by
  cases ls with
  | nil => exact absurd rfl some
  | cons l rest =>
    simp [startsFrom, Line.prepend, Line.chars, byteSize_append, Nat.add_assoc]

/-- The starts that are found going through a text are those of its lines. -/
theorem cons_lineStartsFrom (offset : Offset) (source : List Char) :
    offset :: lineStartsFrom offset source = startsFrom offset (lines source) := by
  unfold lines
  fun_induction linesWith _ source generalizing offset with
  | case1 => rfl
  | case2 rest ih =>
    have here : lineStartsFrom offset ('\r' :: '\n' :: rest) =
        (offset + 1 + 1) :: lineStartsFrom (offset + 1 + 1) rest := rfl
    rw [here, ih]
    rfl
  | case3 c rest apart ends ih =>
    have lone : (c == '\r' && rest.head? == some '\n') = false := by
      cases rest <;> simp_all
    have isBreak : isLineBreak c = true := by
      obtain rfl | is : c = '\n' ∨ isLineBreak c = true := by simpa using ends
      · rfl
      · exact is
    simp only [lineStartsFrom, isBreak, lone, Bool.not_false, Bool.and_self, if_true, ih]
    rfl
  | case4 c rest apart goesOn ih =>
    have isBreak : isLineBreak c = false := by simp_all [isLineBreak]
    rw [startsFrom_prepend (ended_linesWith _ rest).ne_nil, ← ih]
    simp [lineStartsFrom, isBreak, byteSize]

theorem starts_ofText (source : List Char) :
    (LineMap.ofText source).starts = startsFrom 0 (lines source) :=
  cons_lineStartsFrom 0 source

/-- The line that a cut is in does not end before the cut, nor at it unless it is the last line. -/
theorem CutAt.lt_stop (cut : CutAt ls before whole line later part) (ended : Ended ls)
    (more : later ≠ []) :
    byteSize before < byteSize (whole.flatMap Line.chars) + byteSize line.chars := by
  have open_ : part ≠ line.chars := fun all =>
    more ((cut.lines_eq ▸ ended).ending_eq_nil_iff.mp (cut.unended all))
  obtain ⟨rest, split⟩ := cut.within
  have some : rest ≠ [] := fun none => open_ (by simpa [none] using split)
  have size := byteSize_pos some
  rw [cut.before_eq, ← split, byteSize_append, byteSize_append]
  omega

theorem CutAt.start_le (cut : CutAt ls before whole line later part) :
    byteSize (whole.flatMap Line.chars) ≤ byteSize before := by
  rw [cut.before_eq, byteSize_append]
  exact Nat.le_add_right _ _

/-- Two cuts of a text are in one line, or the second one is in a later line. -/
theorem CutAt.same_or_later {middle part' : List Char} {whole' later' : List Line} {line' : Line}
    (ended : Ended ls) (cut : CutAt ls before whole line later part)
    (cut' : CutAt ls (before ++ middle) whole' line' later' part') :
    (whole' = whole ∧ part' = part ++ middle) ∨ whole ++ [line] <+: whole' := by
  have lines_eq := cut.lines_eq.symm.trans cut'.lines_eq
  have before_eq := cut'.before_eq
  rw [cut.before_eq] at before_eq
  obtain ⟨more, rfl⟩ | ⟨more, rfl⟩ := List.prefix_or_prefix_of_prefix
    ⟨line :: later, cut.lines_eq.symm⟩ ⟨line' :: later', cut'.lines_eq.symm⟩
  · cases more with
    | nil => exact .inl ⟨List.append_nil whole, by simpa using before_eq.symm⟩
    | cons next more =>
      obtain ⟨rfl, -⟩ : line = next ∧ _ := by simpa using lines_eq
      exact .inr ⟨more, by simp⟩
  · cases more with
    | nil => exact .inl ⟨(List.append_nil whole').symm, by simpa using before_eq.symm⟩
    | cons next more =>
      -- the second cut would be in front of the first one
      obtain ⟨rfl, rest⟩ : next = line' ∧ _ := by simpa using lines_eq
      have beyond := cut'.lt_stop ended (by simp [← rest])
      rw [cut.before_eq] at beyond
      simp only [List.flatMap_append, List.flatMap_cons, byteSize_append] at beyond
      omega

/-- The lines that start up to a cut are those in front of it and the one that it is in. -/
theorem takeWhile_startsFrom (cut : CutAt ls before whole line later part) (ended : Ended ls) :
    (startsFrom 0 ls).takeWhile (· ≤ byteSize before) = startsFrom 0 (whole ++ [line]) := by
  have split : ls = (whole ++ [line]) ++ later := by simp [cut.lines_eq]
  rw [split, startsFrom_append, List.takeWhile_append_of_pos]
  · cases later with
    | nil => simp [startsFrom]
    | cons next later =>
      have beyond := cut.lt_stop ended (List.cons_ne_nil _ _)
      simpa [startsFrom, byteSize_append] using beyond
  · intro start mem
    rw [startsFrom_append, List.mem_append, startsFrom, startsFrom, List.mem_singleton] at mem
    refine decide_eq_true (Nat.le_trans ?_ cut.start_le)
    obtain mem | rfl := mem
    · simpa using le_of_mem_startsFrom mem
    · simp

theorem place_eq (cut : CutAt (lines source) before whole line later part) :
    (LineMap.ofText source).place source (byteSize before) =
      ⟨whole.length + 1, utf16Size part + 1⟩ := by
  have ended := ended_lines source
  have index : (LineMap.ofText source).lineIndex (byteSize before) = whole.length := by
    simp [LineMap.lineIndex, starts_ofText, takeWhile_startsFrom cut ended, length_startsFrom]
  have start : (LineMap.ofText source).starts.getD whole.length 0 =
      byteSize (whole.flatMap Line.chars) := by
    rw [starts_ofText, cut.lines_eq, startsFrom_append, List.getD_eq_getElem?_getD,
      List.getElem?_append_right (Nat.le_of_eq (length_startsFrom 0 whole)), length_startsFrom]
    simp [startsFrom]
  obtain ⟨after, split⟩ : before <+: source := flatMap_chars_lines source ▸ cut.front
  have inside : byteSize before ≤ byteSize source := by
    rw [← split, byteSize_append]
    exact Nat.le_add_right _ _
  have between := slice?_byteSize (whole.flatMap Line.chars) part after
  rw [← cut.before_eq, split, ← byteSize_append, ← cut.before_eq] at between
  simp only [LineMap.place, index, Nat.min_eq_left inside, start, Nat.min_eq_left cut.start_le,
    between, Option.elim_some]

theorem endsFrom_append (offset : Offset) (a b : List Line) :
    endsFrom offset (a ++ b) =
      endsFrom offset a ++ endsFrom (offset + byteSize (a.flatMap Line.chars)) b := by
  induction a generalizing offset with
  | nil => rfl
  | cons l rest ih =>
    rw [List.cons_append, endsFrom, endsFrom, ih, List.flatMap_cons, byteSize_append, Nat.add_assoc]
    split <;> rfl

theorem le_of_mem_endsFrom {stop : Offset} (mem : stop ∈ endsFrom offset ls) : offset ≤ stop := by
  induction ls generalizing offset with
  | nil => cases mem
  | cons l rest ih =>
    have next : offset ≤ offset + byteSize l.chars := Nat.le_add_right _ _
    rw [endsFrom] at mem
    split at mem
    · exact Nat.le_trans next (ih mem)
    · obtain rfl | mem := List.mem_cons.mp mem
      · exact next
      · exact Nat.le_trans next (ih mem)

theorem mem_endsFrom_le {stop : Offset} (mem : stop ∈ endsFrom offset ls) :
    stop ≤ offset + byteSize (ls.flatMap Line.chars) := by
  induction ls generalizing offset with
  | nil => cases mem
  | cons l rest ih =>
    rw [List.flatMap_cons, byteSize_append, ← Nat.add_assoc]
    rw [endsFrom] at mem
    split at mem
    · exact ih mem
    · obtain rfl | mem := List.mem_cons.mp mem
      · exact Nat.le_add_right _ _
      · exact ih mem

section Whole

variable (terminated : ∀ l ∈ whole, l.ending ≠ [])

include terminated

theorem length_endsFrom (offset : Offset) : (endsFrom offset whole).length = whole.length := by
  induction whole generalizing offset with
  | nil => rfl
  | cons l rest ih =>
    obtain ⟨ending, terminated⟩ := List.forall_mem_cons.mp terminated
    rw [endsFrom, if_neg ending, List.length_cons, List.length_cons, ih terminated]

theorem getLastD_endsFrom (offset : Offset) :
    (endsFrom offset whole).getLastD offset = offset + byteSize (whole.flatMap Line.chars) := by
  induction whole generalizing offset with
  | nil => rfl
  | cons l rest ih =>
    obtain ⟨ending, terminated⟩ := List.forall_mem_cons.mp terminated
    rw [endsFrom, if_neg ending, List.getLastD_cons, ih terminated, List.flatMap_cons,
      byteSize_append, Nat.add_assoc]

end Whole

/-- The terminators that end up to a cut are those of the lines in front of it. -/
theorem filter_terminatorEnds (cut : CutAt (lines source) before whole line later part) :
    (terminatorEnds source).filter (· ≤ byteSize before) = endsFrom 0 whole := by
  have ended := ended_lines source
  rw [terminatorEnds, cut.lines_eq, endsFrom_append, List.filter_append,
    List.filter_eq_self.mpr, List.filter_eq_nil_iff.mpr, List.append_nil]
  · intro stop mem
    have last := (cut.lines_eq ▸ ended).ending_eq_nil_iff
    rw [endsFrom] at mem
    split at mem
    · rw [last.mp ‹_›] at mem
      cases mem
    · have after : 0 + byteSize (whole.flatMap Line.chars) + byteSize line.chars ≤ stop := by
        obtain rfl | mem := List.mem_cons.mp mem
        · exact Nat.le_refl _
        · exact le_of_mem_endsFrom mem
      have beyond := cut.lt_stop ended (mt last.mpr ‹_›)
      rw [Nat.zero_add] at after
      exact fun le => Nat.not_le_of_lt (Nat.lt_of_lt_of_le beyond after) (of_decide_eq_true le)
  · intro stop mem
    refine decide_eq_true (Nat.le_trans (mem_endsFrom_le mem) ?_)
    rw [Nat.zero_add]
    exact cut.start_le

theorem length_lineStartsFrom_le (offset : Offset) (cs : List Char) :
    (lineStartsFrom offset cs).length ≤ cs.length := by
  induction cs generalizing offset with
  | nil => exact Nat.le_refl 0
  | cons c cs ih =>
    have := ih (offset + c.utf8Size)
    rw [lineStartsFrom]
    split <;> simp only [List.length_cons] <;> omega

/-- There are no more lines and columns than bytes, whichever offset is asked for. -/
theorem place_le (source : List Char) (offset : Offset) :
    ((LineMap.ofText source).place source offset).line ≤ byteSize source + 1 ∧
      ((LineMap.ofText source).place source offset).column ≤ byteSize source + 1 := by
  refine ⟨Nat.add_le_add_right ?_ 1, Nat.add_le_add_right ?_ 1⟩
  · have some := length_lineStartsFrom_le 0 source
    have fewer :=
      (List.takeWhile_sublist (· ≤ offset) (l := (LineMap.ofText source).starts)).length_le
    have bytes := length_le_byteSize source
    simp only [LineMap.ofText, List.length_cons] at fewer
    simp only [LineMap.lineIndex, LineMap.ofText]
    omega
  · have inside := Nat.min_le_right offset (byteSize source)
    cases cut : slice? _ (min offset (byteSize source)) source with
    | none => exact Nat.zero_le _
    | some token =>
      have within : byteSize token ≤ min offset (byteSize source) := by
        rw [stop_of_slice? cut]
        exact Nat.le_add_left _ _
      exact (utf16Size_le_byteSize token).trans (within.trans inside)

theorem exists_cutAt (before after : List Char) :
    ∃ whole line later part, CutAt (lines (before ++ after)) before whole line later part := by
  refine (ended_lines (before ++ after)).exists_cutAt ?_
  rw [flatMap_chars_lines]
  exact List.prefix_append before after

theorem showsOffset (before after : List Char) :
    ShowsOffset (before ++ after) (byteSize before)
      ((LineMap.ofText (before ++ after)).place (before ++ after) (byteSize before)) := by
  obtain ⟨whole, line, later, part, cut⟩ := exists_cutAt before after
  have terminated := (cut.lines_eq ▸ ended_lines (before ++ after)).ending_ne_nil
  rw [place_eq cut]
  refine ⟨?_, whole.flatMap Line.chars, part, after, ?_, ?_, ?_, Nat.add_comm _ _⟩
  · rw [List.countP_eq_length_filter, filter_terminatorEnds cut, length_endsFrom terminated,
      Nat.add_comm]
  · rw [← cut.before_eq]
  · rw [filter_terminatorEnds cut, getLastD_endsFrom terminated, Nat.zero_add]
  · rw [← cut.before_eq]

/-- What is told to be further on in a text is shown at a later place. -/
theorem ShowsOffset.precedes {a b : Offset} {p q : Place} (shows : ShowsOffset source a p)
    (shows' : ShowsOffset source b q) (lt : a < b) : p.Precedes q := by
  obtain ⟨before, between, after, split, start, stop, column⟩ := shows.column_eq
  obtain ⟨before', between', after', split', start', stop', column'⟩ := shows'.column_eq
  have more : ((terminatorEnds source).filter (· ≤ a)).Sublist
      ((terminatorEnds source).filter (· ≤ b)) :=
    List.monotone_filter_right _ fun stop le =>
      decide_eq_true (Nat.le_trans (of_decide_eq_true le) (Nat.le_of_lt lt))
  have line := shows.line_eq
  have line' := shows'.line_eq
  rw [List.countP_eq_length_filter] at line line'
  obtain fewer | same := Nat.lt_or_eq_of_le more.length_le
  · exact .inl (by rw [line, line']; exact Nat.add_lt_add_left fewer 1)
  · refine .inr ⟨by rw [line, line', same], ?_⟩
    -- both columns are counted from the end of one terminator
    rw [more.eq_of_length same, ← start'] at start
    have front : before ++ between <+: source := split ▸ List.prefix_append _ _
    have front' : before' ++ between' <+: source := split' ▸ List.prefix_append _ _
    obtain rfl : before = before' := eq_of_byteSize_eq ((List.prefix_append _ _).trans front)
      ((List.prefix_append _ _).trans front') start
    rw [← stop, ← stop', byteSize_lt_iff_length_lt front front'] at lt
    obtain ⟨rest, rfl⟩ := (List.prefix_append_right_inj before).mp
      (List.prefix_of_prefix_length_le front front' (Nat.le_of_lt lt))
    have some : rest ≠ [] := by
      rintro rfl
      simp at lt
    have wider := utf16Size_pos some
    rw [column, column', utf16Size_append]
    omega

/-- Whatever the text, the places of its offsets tell where they are, and the place of a later
offset is a later one. -/
theorem showsOffsets_ofText (source : List Char) :
    ShowsOffsets source ((LineMap.ofText source).place source) where
  shows before after split := split ▸ showsOffset before after
  increasing before between after split some := by
    subst split
    have shows : ShowsOffset _ _ _ := showsOffset before (between ++ after)
    rw [← List.append_assoc] at shows
    refine shows.precedes (showsOffset (before ++ between) after) ?_
    rw [byteSize_append]
    exact Nat.lt_add_of_pos_right (byteSize_pos some)

end LoopCapture.Text
