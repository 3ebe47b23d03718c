import LoopCapture.Proofs.Report.Agreement
import LoopCapture.Proofs.Text.Places

/-!
# The line in a snippet

The place of a diagnostic counts every line terminator of its text, while the line that is displayed
is looked up among the rows, which only line feeds end. So it is the right line when nothing else
ends a line up to there, and else it is as many rows further down as there are other terminators in
front.
-/

namespace LoopCapture.Report
open Text

def gutter (n : Nat) : String := "  " ++ padded n ++ "   "

def shown? (l : Line) : Option (List Char) := if l.chars = [] then none else some l.text

/-- What is printed of a diagnostic after its message: the given text behind the gutter and marks
below it, or nothing when there is no text. -/
def Shows (color : Bool) (d : Diagnostic) (place : Place) : Option (List Char) → String → Prop
  | none, printed => printed = heading color d place ++ ": " ++ d.text
  | some text, printed => ∃ marks, printed = heading color d place ++ ": " ++ d.text ++ "\n" ++
      gutter place.line ++ String.ofList text ++ "\n" ++ marks

/-- What is printed of a diagnostic that begins at a cut of a text, in the given line behind the
given ones. -/
structure ShowsLine (color : Bool) (source before : List Char) (d : Diagnostic) (whole : List Line)
    (line : Line) (place : Place) (printed : String) : Prop where
  line_eq : place.line = whole.length + 1
  shows_row : Shows color d place ((rows source)[whole.length]?.bind shown?) printed
  shows_line : (∀ l ∈ whole ++ [line], l.ending = [] ∨ l.IsPlain) →
    Shows color d place (shown? line) printed
  row_of_start : ∃ above row below part, CutAt (rows source) before above row below part ∧
    whole.length = above.length + whole.countP (¬ ·.IsPlain)

variable {source before part : List Char} {whole later : List Line} {line : Line}

theorem displayLines_cons (acc : List Char) (c : Char) (cs : List Char) :
    displayLines acc (c :: cs) =
      if c = '\n' then (withoutReturn acc).reverse :: displayLines [] cs
      else displayLines (c :: acc) cs :=
  rfl

/-- The lines displayed are the rows, without the last one when there is nothing in it. -/
theorem displayLines_eq {acc : List Char} (single : '\n' ∉ acc) (source : List Char) :
    displayLines acc source = (rows (acc.reverse ++ source)).filterMap shown? := by
  induction source generalizing acc with
  | nil =>
    have all := rows_append acc.reverse [] (by simpa using single) (by simp)
    rw [all]
    cases acc <;> simp [displayLines, rows, linesWith, Line.prepend, Line.chars, shown?]
  | cons c cs ih =>
    by_cases feed : c = '\n'
    · subst feed
      obtain ⟨ending, some, is⟩ := rows_append_newline single cs
      rw [is, displayLines_cons, if_pos rfl, ih (by simp)]
      simp [Line.chars, some, shown?]
    · have single' : '\n' ∉ c :: acc := by simp [single, Ne.symm feed]
      rw [displayLines_cons, if_neg feed, ih single']
      simp

theorem getElem?_displayLines (source : List Char) (i : Nat) :
    (displayLines [] source)[i]? = (rows source)[i]?.bind shown? := by
  have ended : Ended (rows source) := ended_linesWith _ source
  rw [displayLines_eq (by simp), List.reverse_nil, List.nil_append]
  generalize rows source = ls at ended
  induction ended generalizing i with
  | @last l ending => cases i <;> by_cases none : l.chars = [] <;> simp [shown?, none]
  | @cons l rest ending _ ih =>
    have kept : shown? l = some l.text := if_neg (by simp [Line.chars, ending])
    rw [List.filterMap_cons_some kept]
    cases i with
    | zero => simp [kept]
    | succ i => exact ih i

section Printed

variable (color : Bool) {map : LineMap} {d : Diagnostic} {i : Nat}
  (index : (map.place source d.start).line = i + 1)

include index

theorem diagnosticText_of_none (none : (rows source)[i]?.bind shown? = none) :
    diagnosticText color map d source =
      heading color d (map.place source d.start) ++ ": " ++ d.text := by
  simp only [diagnosticText, snippet, index, Nat.add_sub_cancel, getElem?_displayLines, none]
  exact String.append_empty

theorem diagnosticText_of_some {text : List Char}
    (shown : (rows source)[i]?.bind shown? = some text) :
    diagnosticText color map d source =
      heading color d (map.place source d.start) ++ ": " ++ d.text ++ "\n" ++ gutter (i + 1) ++
        String.ofList text ++ "\n" ++ ("        " ++ styled color underlineStyle
          (String.ofList (underline (map.place source d.start)
            (map.place source (d.start + d.length)) text))) := by
  have newline : "\n  " = "\n" ++ "  " := rfl
  have newline' : "\n        " = "\n" ++ "        " := rfl
  simp only [diagnosticText, snippet, index, Nat.add_sub_cancel, getElem?_displayLines, shown,
    newline, newline', gutter, String.append_assoc]

theorem shows_diagnosticText :
    Shows color d (map.place source d.start) ((rows source)[i]?.bind shown?)
      (diagnosticText color map d source) := by
  cases shown : (rows source)[i]?.bind shown? with
  | none => exact diagnosticText_of_none color index shown
  | some text =>
    rw [Shows, index]
    exact ⟨_, diagnosticText_of_some color index shown⟩

end Printed

theorem fst_showDiagnostic {maps : LineMaps} {d : Diagnostic} (serves : Serves maps d.file source)
    (color : Bool) :
    (showDiagnostic color maps d source).1 = diagnosticText color (.ofText source) d source := by
  simp only [showDiagnostic, fst_lineMapFor serves]

/-- Whatever the text, a diagnostic shows the row that is numbered like the line in which it begins.
This is the line itself when only line feeds end the lines up to it. -/
theorem showsLine_ofText {maps : LineMaps} {d : Diagnostic} {after : List Char}
    (serves : Serves maps d.file (before ++ after)) (start : d.start = byteSize before)
    (color : Bool) :
    ∃ whole line later part, CutAt (lines (before ++ after)) before whole line later part ∧
      ShowsLine color (before ++ after) before d whole line
        ((LineMap.ofText (before ++ after)).place (before ++ after) d.start)
        (showDiagnostic color maps d (before ++ after)).1 := by
  obtain ⟨whole, line, later, part, cut⟩ := exists_cutAt before after
  have index : ((LineMap.ofText (before ++ after)).place (before ++ after) d.start).line =
      whole.length + 1 := by
    rw [start, place_eq cut]
  have shows_row := shows_diagnosticText color index
  rw [fst_showDiagnostic serves]
  refine ⟨whole, line, later, part, cut, index, shows_row, fun plain => ?_, cut.exists_row⟩
  rwa [cut.getElem?_rows plain] at shows_row

/-- Behind a lone carriage return it is not the line itself that is shown but the one below. -/
theorem shows_below_return :
    let d : Diagnostic := ⟨"a.ts", 2, 1, "m", .error, 1, none⟩
    Serves [] d.file ("a\r".toList ++ "b\nc\n".toList) ∧ d.start = byteSize "a\r".toList ∧
      (lines ("a\r".toList ++ "b\nc\n".toList))[1]? = some ⟨['b'], ['\n']⟩ ∧
      Shows false d ⟨2, 1⟩ (some ['c'])
        (showDiagnostic false [] d ("a\r".toList ++ "b\nc\n".toList)).1 := by
  intro d
  have serves : Serves [] d.file ("a\r".toList ++ "b\nc\n".toList) := nofun
  have start : d.start = byteSize "a\r".toList := by decide
  obtain ⟨whole, line, later, part, -, shows⟩ := showsLine_ofText serves start false
  have place : (LineMap.ofText ("a\r".toList ++ "b\nc\n".toList)).place
      ("a\r".toList ++ "b\nc\n".toList) d.start = ⟨2, 1⟩ := by decide
  rw [place] at shows
  have index : whole.length = 1 := Nat.succ.inj shows.line_eq.symm
  have row : (rows ("a\r".toList ++ "b\nc\n".toList))[1]? = some ⟨['c'], ['\n']⟩ := by decide
  have shown := shows.shows_row
  rw [index, row] at shown
  exact ⟨serves, start, by decide, shown⟩

end LoopCapture.Report
