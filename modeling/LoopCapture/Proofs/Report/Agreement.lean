import LoopCapture.Proofs.Json.ReadBack
import LoopCapture.Proofs.Text.Places
import LoopCapture.Report.Json
import LoopCapture.Report.Text
import Mathlib.Data.List.Forall2

/-!
# The two reports agree

The text report keeps the line maps it has made under the names of their files, while the JSON
report makes a map for each file. When the names differ, a map that was kept is always that of the
file at hand, so both reports give every diagnostic the same place. What the JSON report says is
what a reader makes of its text.
-/

namespace LoopCapture

namespace Json.Value

def member? (key : String) : Value → Option Value
  | .object members => members.lookup key
  | _ => none

def elements : Value → List Value
  | .array elements => elements
  | _ => []

def count (key : String) (v : Value) : Nat :=
  match v.member? key with
  | some (.integer n) => n.toNat
  | _ => 0

end Json.Value

namespace Report
open Json (Value)
open Text (LineMap)

/-- The messages of a JSON report, each with the path of its file. -/
def messagesOf (report : Value) : List (Option Value × Value) :=
  report.elements.flatMap fun file =>
    ((file.member? "messages").elim [] Value.elements).map fun message =>
      (file.member? "filePath", message)

def total (key : String) (report : Value) : Nat :=
  report.elements.foldr (fun file n => file.count key + n) 0

/-- A block of a text report tells a message of a JSON report: the path, the line, the column and
the wording are the same. -/
def Tells (block : String) (message : Option Value × Value) : Prop :=
  ∃ path line column wording label tail,
    message.1 = some (.string path) ∧
    message.2.member? "line" = some (.natural line) ∧
    message.2.member? "column" = some (.natural column) ∧
    message.2.member? "message" = some (.string wording) ∧
    block = path ++ ":" ++ toString line ++ ":" ++ toString column ++ " - " ++ label ++ ": " ++
      wording ++ tail

/-- The size of the text, the number of its diagnostics and the numbers of their messages can be
held in 64 bits. -/
structure FileReport.IsSized (file : FileReport) : Prop where
  source : Text.byteSize file.source < Json.maxNatural
  diagnostics : file.result.diagnostics.length ≤ Json.maxNatural
  codes : ∀ d ∈ file.result.diagnostics, d.code ≤ Json.maxNatural

/-- A number and a word in the form that agrees with it. -/
def counted (count : Nat) (word : String) : String :=
  toString count ++ " " ++ word ++ if count = 1 then "" else "s"

/-- A line gives the numbers of errors and of warnings and their sum. Nothing stands around it but
the marks of its colour. -/
def SumsUp (color : Bool) (errors warnings : Nat) (line : String) : Prop :=
  ∃ front back, (color = false → front = "" ∧ back = "") ∧
    line = front ++ ("Found " ++ counted (errors + warnings) "problem" ++ " (" ++
      counted errors "error" ++ ", " ++ counted warnings "warning" ++ ").") ++ back

/-- A text report is made of blocks, which tell the messages of a JSON report one by one, and of a
last line that gives the sums of its counts. The JSON report is what its text is printed from, and
what reading the text gives. -/
structure ReportsAgree (color : Bool) (files : List FileReport) (text json : String)
    (report : Value) (blocks : List String) (last : String) : Prop where
  printed : json = report.text
  read : (∀ file ∈ files, file.IsSized) →
    Json.Reader.run (Json.Reader.value Json.levelLimit) json = .ok report
  one_each : blocks.length = (files.flatMap (·.result.diagnostics)).length
  tells : List.Forall₂ Tells blocks (messagesOf report)
  sums : SumsUp color (total "errorCount" report) (total "warningCount" report) last
  text_eq : text =
    if blocks = [] then "" else "\n".intercalate (blocks.map (· ++ "\n")) ++ "\n" ++ last ++ "\n"

variable {maps : LineMaps} {name : String} {source : List Char} {color : Bool}

/-- What is kept under a name, if anything, is the map of the text. -/
def Serves (maps : LineMaps) (name : String) (source : List Char) : Prop :=
  ∀ map, maps.lookup name = some map → map = .ofText source

theorem fst_lineMapFor (serves : Serves maps name source) :
    (lineMapFor maps name source).1 = .ofText source := by
  rw [lineMapFor]
  split
  · exact serves _ ‹_›
  · rfl

theorem serves_lineMapFor (serves : Serves maps name source) :
    Serves (lineMapFor maps name source).2 name source := by
  rw [lineMapFor]
  split
  · exact serves
  · intro map found
    simpa using found.symm

theorem lookup_lineMapFor {other : String} (ne : other ≠ name) :
    (lineMapFor maps name source).2.lookup other = maps.lookup other := by
  rw [lineMapFor]
  split
  · rfl
  · rw [List.lookup_cons, beq_false_of_ne ne]

/-- The block of a diagnostic, its places counted in its own file. -/
def blockOf (color : Bool) (source : List Char) (d : Diagnostic) : String :=
  diagnosticText color (.ofText source) d source

/-- The diagnostics of one file are all counted in that file. -/
theorem fst_showAll {diagnostics : List Diagnostic} (serves : Serves maps name source)
    (carried : ∀ d ∈ diagnostics, d.file = name) :
    (showAll color source maps diagnostics).1 = diagnostics.map (blockOf color source) := by
  induction diagnostics generalizing maps with
  | nil => rfl
  | cons d rest ih =>
    obtain ⟨here, later⟩ := List.forall_mem_cons.mp carried
    simp only [showAll, showDiagnostic, here, List.map_cons, fst_lineMapFor serves,
      ih (serves_lineMapFor serves) later, blockOf]

/-- The maps of other files stay as they are. -/
theorem lookup_showAll {diagnostics : List Diagnostic} (carried : ∀ d ∈ diagnostics, d.file = name)
    {other : String} (ne : other ≠ name) :
    (showAll color source maps diagnostics).2.lookup other = maps.lookup other := by
  induction diagnostics generalizing maps with
  | nil => rfl
  | cons d rest ih =>
    obtain ⟨here, later⟩ := List.forall_mem_cons.mp carried
    simp only [showAll, showDiagnostic, here, ih later, lookup_lineMapFor ne]

def blocksOf (color : Bool) (files : List FileReport) : List String :=
  files.flatMap fun file => file.result.diagnostics.map (blockOf color file.source)

/-- With differing names, no file is served the map of another. -/
theorem showFiles_eq {files : List FileReport} (names : (files.map (·.name)).Nodup)
    (carried : ∀ file ∈ files, ∀ d ∈ file.result.diagnostics, d.file = file.name)
    (fresh : ∀ file ∈ files, maps.lookup file.name = none) :
    showFiles color maps files = blocksOf color files := by
  induction files generalizing maps with
  | nil => rfl
  | cons file rest ih =>
    obtain ⟨unlike, names⟩ := List.nodup_cons.mp names
    obtain ⟨carriedHere, carriedLater⟩ := List.forall_mem_cons.mp carried
    obtain ⟨freshHere, freshLater⟩ := List.forall_mem_cons.mp fresh
    have serves : Serves maps file.name file.source := by simp [Serves, freshHere]
    have still : ∀ other ∈ rest, (showAll color file.source maps file.result.diagnostics).2.lookup
        other.name = none := by
      intro other mem
      have ne : other.name ≠ file.name := fun same =>
        unlike (List.mem_map.mpr ⟨other, mem, same⟩)
      rw [lookup_showAll carriedHere ne, freshLater other mem]
    simp only [showFiles, ih names carriedLater still, fst_showAll serves carriedHere, blocksOf,
      List.flatMap_cons]

theorem foldl_count (t : Tally) (diagnostics : List Diagnostic) :
    diagnostics.foldl Tally.count t =
      ⟨t.errors + diagnostics.countP (·.isError),
        t.warnings + diagnostics.countP (!·.isError)⟩ := by
  induction diagnostics generalizing t with
  | nil => rfl
  | cons d rest ih =>
    rw [List.foldl_cons, ih]
    by_cases isError : d.isError <;> simp [Tally.count, isError] <;> omega

theorem warningCount_eq (r : Capture.LintResult) :
    r.warningCount = r.diagnostics.countP (!·.isError) := by
  have := List.length_eq_countP_add_countP (·.isError) (l := r.diagnostics)
  simp only [Capture.LintResult.warningCount, Capture.LintResult.errorCount]
  simp only [Bool.not_eq_true, Bool.decide_eq_false] at this
  omega

theorem tally_eq (files : List FileReport) : tally files =
    ⟨(files.flatMap (·.result.diagnostics)).countP (·.isError),
      (files.flatMap (·.result.diagnostics)).countP (!·.isError)⟩ := by
  rw [tally, foldl_count, Nat.zero_add, Nat.zero_add]

theorem total_errorCount (files : List FileReport) :
    total "errorCount" (.array (files.map fileValue)) =
      (files.flatMap (·.result.diagnostics)).countP (·.isError) := by
  induction files with
  | nil => rfl
  | cons file rest ih =>
    rw [List.flatMap_cons, List.countP_append, ← ih]
    rfl

theorem total_warningCount (files : List FileReport) :
    total "warningCount" (.array (files.map fileValue)) =
      (files.flatMap (·.result.diagnostics)).countP (!·.isError) := by
  induction files with
  | nil => rfl
  | cons file rest ih =>
    rw [List.flatMap_cons, List.countP_append, ← ih, ← warningCount_eq]
    rfl

theorem tally_eq_zero_iff (files : List FileReport) :
    (tally files).errors + (tally files).warnings = 0 ↔
      files.flatMap (·.result.diagnostics) = [] := by
  have := List.length_eq_countP_add_countP (·.isError) (l := files.flatMap (·.result.diagnostics))
  simp only [Bool.not_eq_true, Bool.decide_eq_false] at this
  rw [tally_eq, ← this, List.length_eq_zero_iff]

theorem length_blocksOf (color : Bool) (files : List FileReport) :
    (blocksOf color files).length = (files.flatMap (·.result.diagnostics)).length := by
  simp [blocksOf, List.length_flatMap]

theorem blocksOf_eq_nil_iff (color : Bool) (files : List FileReport) :
    blocksOf color files = [] ↔ files.flatMap (·.result.diagnostics) = [] := by
  rw [← List.length_eq_zero_iff, length_blocksOf, List.length_eq_zero_iff]

/-- The block of a diagnostic tells the message that JSON has for it. -/
theorem tells_blockOf (color : Bool) {file : FileReport} {d : Diagnostic}
    (carried : d.file = file.name) :
    Tells (blockOf color file.source d)
      (some (.string file.name), messageValue (.ofText file.source) file.source d) := by
  let start := (LineMap.ofText file.source).place file.source d.start
  let stop := (LineMap.ofText file.source).place file.source (d.start + d.length)
  refine ⟨file.name, start.line, start.column, d.text,
    styled color (categoryStyle d.category) d.category.word ++
      ((codeLabel? d).elim "" fun label => " " ++ styled color codeStyle label),
    snippet color start stop file.source, rfl, rfl, rfl, rfl, ?_⟩
  simp only [blockOf, diagnosticText, heading, carried, String.append_assoc]
  rfl

theorem messagesOf_cons (file : FileReport) (files : List FileReport) :
    messagesOf (.array ((file :: files).map fileValue)) =
      file.result.diagnostics.map (fun d =>
        (some (.string file.name), messageValue (.ofText file.source) file.source d)) ++
      messagesOf (.array (files.map fileValue)) := by
  have path : (fileValue file).member? "filePath" = some (.string file.name) := rfl
  have messages : (fileValue file).member? "messages" = some (.array
      (file.result.diagnostics.map (messageValue (.ofText file.source) file.source))) := rfl
  simp only [messagesOf, Value.elements, List.map_cons, List.flatMap_cons, path, messages,
    Option.elim_some, List.map_map]
  rfl

/-- Block by block, the two reports tell the same. -/
theorem forall₂_tells (color : Bool) {files : List FileReport}
    (carried : ∀ file ∈ files, ∀ d ∈ file.result.diagnostics, d.file = file.name) :
    List.Forall₂ Tells (blocksOf color files) (messagesOf (.array (files.map fileValue))) := by
  induction files with
  | nil => exact .nil
  | cons file rest ih =>
    obtain ⟨here, later⟩ := List.forall_mem_cons.mp carried
    rw [messagesOf_cons, blocksOf, List.flatMap_cons]
    refine List.rel_append ?_ (ih later)
    rw [List.forall₂_map_left_iff, List.forall₂_map_right_iff, List.forall₂_same]
    exact fun d mem => tells_blockOf color (here d mem)

theorem counted_eq (count : Nat) (word : String) :
    counted count word = toString count ++ " " ++ plural count word := by
  rw [counted, plural]
  split
  · exact String.append_empty
  · exact String.append_assoc ..

theorem sumsUp_summary (color : Bool) (errors warnings : Nat) :
    SumsUp color errors warnings (summary color errors warnings) := by
  simp only [SumsUp, counted_eq]
  cases color with
  | false => exact ⟨"", "", fun _ => ⟨rfl, rfl⟩, by simp [summary, styled]⟩
  | true =>
    refine ⟨"\x1b[" ++ "1;" ++ (summaryStyle errors).colour.code ++ "m", "\x1b[0m", by simp, ?_⟩
    have bold : (summaryStyle errors).isBold := by
      rw [summaryStyle]
      split <;> rfl
    simp [summary, styled, Style.apply, bold]

theorem fits_natural {n k : Nat} (small : k ≤ Json.maxNatural) : (Value.natural k).Fits n :=
  .integer (Int.le_trans (by decide) (Int.natCast_nonneg k)) (Int.ofNat_le.mpr small)

theorem fits_messageValue {file : FileReport} (sized : file.IsSized) {d : Diagnostic}
    (mem : d ∈ file.result.diagnostics) (n : Nat) :
    (messageValue (.ofText file.source) file.source d).Fits (n + 1) := by
  have line (offset : Text.Offset) :
      ((LineMap.ofText file.source).place file.source offset).line ≤ Json.maxNatural :=
    (Text.place_le file.source offset).1.trans sized.source
  have column (offset : Text.Offset) :
      ((LineMap.ofText file.source).place file.source offset).column ≤ Json.maxNatural :=
    (Text.place_le file.source offset).2.trans sized.source
  have severity : (if d.isError then 2 else 1) ≤ Json.maxNatural := by split <;> decide
  refine .object fun m isMember => ?_
  rcases List.mem_append.mp isMember with among | among
  · simp only [List.mem_cons, List.not_mem_nil, or_false] at among
    rcases among with rfl | rfl | rfl | rfl | rfl | rfl | rfl
    · cases d.rule with
      | none => exact .null
      | some rule => exact .string rule
    · exact fits_natural severity
    · exact .string _
    · exact fits_natural (line _)
    · exact fits_natural (column _)
    · exact fits_natural (line _)
    · exact fits_natural (column _)
  · split at among
    · simp at among
    · obtain rfl := List.mem_singleton.mp among
      exact fits_natural (sized.codes d mem)

theorem fits_fileValue {file : FileReport} (sized : file.IsSized) (n : Nat) :
    (fileValue file).Fits (n + 3) := by
  have errors : file.result.errorCount ≤ file.result.diagnostics.length := List.countP_le_length
  have warnings : file.result.warningCount ≤ file.result.diagnostics.length := Nat.sub_le _ _
  refine .object fun m isMember => ?_
  simp only [List.mem_cons, List.not_mem_nil, or_false] at isMember
  rcases isMember with rfl | rfl | rfl | rfl
  · exact .string _
  · refine .array fun v among => ?_
    obtain ⟨d, mem, rfl⟩ := List.mem_map.mp among
    exact fits_messageValue sized mem n
  · exact fits_natural (errors.trans sized.diagnostics)
  · exact fits_natural (warnings.trans sized.diagnostics)

theorem fits_report {files : List FileReport} (sized : ∀ file ∈ files, file.IsSized) :
    (Value.array (files.map fileValue)).Fits Json.levelLimit := by
  refine .array fun v mem => ?_
  obtain ⟨file, among, rfl⟩ := List.mem_map.mp mem
  exact fits_fileValue (sized file among) 123

/-- Whatever files with differing names are reported, each diagnostic under the name of its file,
the two reports agree. -/
theorem reportsAgree (color : Bool) {files : List FileReport} (names : (files.map (·.name)).Nodup)
    (carried : ∀ file ∈ files, ∀ d ∈ file.result.diagnostics, d.file = file.name) :
    ∃ report blocks last,
      ReportsAgree color files (textReport color files) (jsonReport files) report blocks last := by
  have shown : showFiles color [] files = blocksOf color files :=
    showFiles_eq names carried fun _ _ => rfl
  have read (sized : ∀ file ∈ files, file.IsSized) :=
    Json.Reader.run_value_text (fits_report sized)
  refine ⟨.array (files.map fileValue), blocksOf color files, _, rfl, read,
    length_blocksOf color files, forall₂_tells color carried, sumsUp_summary .., ?_⟩
  rw [total_errorCount, total_warningCount, textReport, shown, tally_eq]
  by_cases none : files.flatMap (·.result.diagnostics) = []
  · simp [none, (blocksOf_eq_nil_iff color files).mpr none]
  · have positive := Nat.pos_of_ne_zero (mt (tally_eq_zero_iff files).mp none)
    rw [tally_eq] at positive
    rw [if_pos positive, if_neg (mt (blocksOf_eq_nil_iff color files).mp none)]

/-- Two files whose lines do not start at the same places, with a diagnostic at the same place. -/
def unlikeFiles : List FileReport :=
  [("a.js", "\n\nx"), ("b.js", "x y")].map fun (name, source) =>
    { name, source := source.toList
      result := ⟨[⟨name, 2, 1, "x", .error, 1109, none⟩], []⟩ }

theorem reportsAgree_unlikeFiles : (unlikeFiles.map (·.name)).Nodup ∧
    (∀ file ∈ unlikeFiles, ∀ d ∈ file.result.diagnostics, d.file = file.name) ∧
    ∃ report blocks last,
      Json.Reader.run (Json.Reader.value Json.levelLimit) (jsonReport unlikeFiles) = .ok report ∧
      ReportsAgree true unlikeFiles (textReport true unlikeFiles) (jsonReport unlikeFiles) report
        blocks last := by
  have names : (unlikeFiles.map (·.name)).Nodup := by decide
  have carried : ∀ file ∈ unlikeFiles, ∀ d ∈ file.result.diagnostics, d.file = file.name := by
    simp [unlikeFiles]
  have sized : ∀ file ∈ unlikeFiles, file.IsSized := by
    intro file mem
    simp only [unlikeFiles, List.map_cons, List.map_nil, List.mem_cons, List.not_mem_nil,
      or_false] at mem
    rcases mem with rfl | rfl
    all_goals exact ⟨by decide, by decide, by simp [Json.maxNatural]⟩
  obtain ⟨report, blocks, last, agree⟩ := reportsAgree true names carried
  exact ⟨names, carried, report, blocks, last, agree.read sized, agree⟩

end Report
end LoopCapture
