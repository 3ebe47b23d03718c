import LoopCapture.Proofs.Grammar.Nesting
import LoopCapture.Proofs.Grammar.Placed
import LoopCapture.Proofs.Grammar.Termination
import LoopCapture.Proofs.Token.Faults

/-!
# What is told of the faults of a text

A parse reports faults, and keeps a report unless the one kept last is about the same place. Reports
are lost in attempts that fail, and nowhere else. What is told in the end is one error for each
place that a report or the scanner named. A construct that is given up is reported, or the report
came when the limit was first met.
-/

namespace LoopCapture

section Sorting
variable {α : Type} (key : α → Nat)

theorem trans_of_key (a b c : α) (h : decide (key a ≤ key b) = true)
    (h' : decide (key b ≤ key c) = true) : decide (key a ≤ key c) = true :=
  decide_eq_true (Nat.le_trans (of_decide_eq_true h) (of_decide_eq_true h'))

theorem total_of_key (a b : α) :
    (decide (key a ≤ key b) || decide (key b ≤ key a)) = true := by
  simpa using Nat.le_total (key a) (key b)

theorem pairwise_mergeSort_key (items : List α) :
    (items.mergeSort fun a b => key a ≤ key b).Pairwise (key · ≤ key ·) :=
  (List.pairwise_mergeSort (trans_of_key key) (total_of_key key) items).imp of_decide_eq_true

end Sorting

namespace Grammar
open Text (byteSize)
open Diagnostic (Fault SyntaxError)

namespace State

/-- The error that a fault of the current token is. -/
def faultHere (s : State) (fault : Fault) : SyntaxError :=
  ⟨fault, s.scanner.start.offset, s.scanner.stop.offset - s.scanner.start.offset⟩

theorem isTold_faultHere (s : State) (fault : Fault) : s.scanner.IsTold (s.faultHere fault) :=
  ⟨rfl, rfl⟩

/-- A report is kept, or the one kept last is about the same place. -/
theorem errors_reportHere (s : State) (fault : Fault) :
    (s.reportHere fault).errors = s.errors.push (s.faultHere fault) ∨
      (s.reportHere fault).errors = s.errors ∧
        ∃ e ∈ s.errors, e.start = (s.faultHere fault).start := by
  simp only [reportHere]
  split
  · rename_i same
    obtain ⟨e, last, same⟩ := (Option.any_eq_true _ _).mp same
    exact .inr ⟨rfl, e, Array.mem_of_back? last, eq_of_beq same⟩
  · exact .inl rfl

/-- After a report there is an error about its place. -/
theorem exists_mem_reportHere (s : State) (fault : Fault) :
    ∃ e ∈ (s.reportHere fault).errors, e.start = (s.faultHere fault).start := by
  rcases s.errors_reportHere fault with kept | ⟨same, e, mem, start⟩
  · exact ⟨_, kept ▸ Array.mem_push_self, rfl⟩
  · exact ⟨e, same ▸ mem, start⟩

theorem errors_giveUp (s : State) : s.giveUp.errors =
    if s.depth = depthLimit then (s.reportHere .expressionExpected).errors else s.errors := by
  rw [giveUp]
  split <;> rfl

/-- A parse that believes to be deeper than the limit has reported that. -/
def OwnsUp (s : State) : Prop := depthLimit < s.depth → s.errors ≠ #[]

end State

namespace Parse

variable {α β : Type}

/-- The errors that a step reports, kept or not, without those of attempts that fail. -/
def reported {α : Type} : Parse α → State → List SyntaxError
  | .andThen p next, s => p.reported s ++ (next (p.run s).1).reported (p.run s).2
  | .reportHere fault, s => [s.faultHere fault]
  | .within change p, s => p.reported { s with context := change s.context }
  | .guarded p, s =>
    if s.depth < depthLimit then p.reported { s with depth := s.depth + 1 }
    else if s.depth = depthLimit then [s.faultHere .expressionExpected] else []
  | .lookAhead p, s => p.reported s
  | .attempt p, s =>
    if (p.run s).1.isSome ∧ (p.run s).2.errorCount = s.errorCount then p.reported s else []
  | .labelled _ p, s => p.reported s
  | _, _ => []

/-- A construct that is given up is reported at the limit alone. -/
theorem reported_guarded_of_limit_le (p : Parse Syntax.Child) {s : State}
    (full : depthLimit ≤ s.depth) : (guarded p).reported s =
      if s.depth = depthLimit then [s.faultHere .expressionExpected] else [] := by
  simp [reported, Nat.not_lt.mpr full]

/-- A step adds some of its reports to the errors, and takes none away. -/
theorem errors_run (p : Parse α) (s : State) :
    ∃ kept, (p.run s).2.errors = s.errors ++ kept ∧ kept.toList.Sublist (p.reported s) := by
  have reports (fault : Fault) (s : State) : ∃ kept,
      (s.reportHere fault).errors = s.errors ++ kept ∧
        kept.toList.Sublist [s.faultHere fault] := by
    rcases s.errors_reportHere fault with kept | ⟨same, -⟩
    · exact ⟨#[s.faultHere fault], by simp [kept], .refl _⟩
    · exact ⟨#[], by simp [same], List.nil_sublist _⟩
  induction p generalizing s with
  | done | observe | advance | reread | addNode | reshape | becomePattern =>
    exact ⟨#[], by simp [run, State.advance, State.reread, State.addNode], .refl _⟩
  | andThen p next ihp ihn =>
    obtain ⟨first, errors, sub⟩ := ihp s
    obtain ⟨second, errors', sub'⟩ := ihn (p.run s).1 (p.run s).2
    refine ⟨first ++ second, ?_, ?_⟩
    · rw [run_andThen, errors', errors, Array.append_assoc]
    · rw [Array.toList_append]
      exact sub.append sub'
  | reportHere fault => exact reports fault s
  | within change p ih => exact ih { s with context := change s.context }
  | guarded p ih =>
    by_cases free : s.depth < depthLimit
    · simp only [run, reported, if_pos free]
      exact ih { s with depth := s.depth + 1 }
    · have full := Nat.not_lt.mp free
      rw [run_guarded_of_limit_le p full, reported_guarded_of_limit_le p full, State.errors_giveUp]
      by_cases limit : s.depth = depthLimit
      · rw [if_pos limit, if_pos limit]
        exact reports _ s
      · rw [if_neg limit, if_neg limit]
        exact ⟨#[], by simp, .refl _⟩
  | lookAhead p ih => exact ih s
  | attempt p ih =>
    obtain ⟨kept, errors, sub⟩ := ih s
    by_cases succeeds : (p.run s).1.isSome ∧ (p.run s).2.errorCount = s.errorCount
    · exact ⟨kept, by simp [run, State.mark, succeeds, errors],
        by simpa [reported, succeeds] using sub⟩
    · refine ⟨#[], ?_, List.nil_sublist _⟩
      simp [run, State.mark, State.rewind, State.rewindToken, succeeds, errors]
  | labelled label p ih => exact ih s

/-- What a step has kept stays. -/
theorem mem_errors_run (p : Parse α) {s : State} {e : SyntaxError} (mem : e ∈ s.errors) :
    e ∈ (p.run s).2.errors := by
  obtain ⟨kept, errors, -⟩ := p.errors_run s
  rw [errors, Array.mem_append]
  exact .inl mem

theorem exists_mem_errors_of_reported (p : Parse α) {s : State} {e : SyntaxError}
    (mem : e ∈ p.reported s) : ∃ e' ∈ (p.run s).2.errors, e'.start = e.start := by
  induction p generalizing s with
  | done | observe | advance | reread | addNode | reshape | becomePattern => cases mem
  | andThen p next ihp ihn =>
    rcases List.mem_append.mp mem with first | second
    · obtain ⟨e', kept, same⟩ := ihp first
      exact ⟨e', mem_errors_run (next (p.run s).1) kept, same⟩
    · exact ihn (p.run s).1 second
  | reportHere fault =>
    obtain rfl := List.mem_singleton.mp mem
    exact s.exists_mem_reportHere fault
  | within change p ih => exact ih (s := { s with context := change s.context }) mem
  | guarded p ih =>
    by_cases free : s.depth < depthLimit
    · simp only [run, reported, if_pos free] at mem ⊢
      exact ih mem
    · have full := Nat.not_lt.mp free
      rw [reported_guarded_of_limit_le p full] at mem
      rw [run_guarded_of_limit_le p full, State.errors_giveUp]
      by_cases limit : s.depth = depthLimit
      · rw [if_pos limit] at mem ⊢
        obtain rfl := List.mem_singleton.mp mem
        exact s.exists_mem_reportHere _
      · rw [if_neg limit] at mem
        cases mem
  | lookAhead p ih => exact ih mem
  | attempt p ih =>
    by_cases succeeds : (p.run s).1.isSome ∧ (p.run s).2.errorCount = s.errorCount
    · simp only [reported, if_pos succeeds] at mem
      simpa [run, State.mark, succeeds] using ih mem
    · simp only [reported, if_neg succeeds] at mem
      cases mem
  | labelled label p ih => exact ih mem

theorem standsIn_of_mem_reported (p : Parse α) {text : List Char} {s : State}
    (h : s.StandsIn text) {e : SyntaxError} (mem : e ∈ p.reported s) : e.StandsIn text := by
  have here {s : State} (h : s.StandsIn text) (fault : Fault) : (s.faultHere fault).StandsIn text :=
    (s.isTold_faultHere fault).standsIn h.stands.start h.stands.stop
  induction p generalizing s with
  | done | observe | advance | reread | addNode | reshape | becomePattern => cases mem
  | andThen p next ihp ihn =>
    rcases List.mem_append.mp mem with first | second
    · exact ihp h first
    · exact ihn (p.run s).1 (standsIn_run p h).1 second
  | reportHere fault =>
    obtain rfl := List.mem_singleton.mp mem
    exact here h fault
  | within change p ih =>
    exact ih (s := { s with context := change s.context }) (h.congr rfl rfl) mem
  | guarded p ih =>
    by_cases free : s.depth < depthLimit
    · simp only [reported, if_pos free] at mem
      exact ih (s := { s with depth := s.depth + 1 }) (h.congr rfl rfl) mem
    · rw [reported_guarded_of_limit_le p (Nat.not_lt.mp free)] at mem
      split at mem
      · obtain rfl := List.mem_singleton.mp mem
        exact here h _
      · cases mem
  | lookAhead p ih => exact ih h mem
  | attempt p ih =>
    simp only [reported] at mem
    split at mem
    · exact ih h mem
    · cases mem
  | labelled label p ih => exact ih h mem

theorem tellsOf_run (p : Parse α) {text : List Char} {s : State} (h : s.StandsIn text)
    (tells : s.scanner.TellsOf text) : (p.run s).2.scanner.TellsOf text := by
  -- going back drops errors and adds none
  have rewound {s' : State} (tells : s'.scanner.TellsOf text) (saved : Token.Scanner) :
      (s'.scanner.rewind saved).TellsOf text := by
    intro e mem
    have among : e ∈ s'.scanner.errors.toList.take saved.errors.size := by
      simpa [Token.Scanner.rewind] using Array.mem_def.mp mem
    exact tells e (Array.mem_def.mpr (List.mem_of_mem_take among))
  induction p generalizing s with
  | done | observe | addNode | reshape | becomePattern | reportHere => exact tells
  | andThen p next ihp ihn => exact ihn (p.run s).1 (standsIn_run p h).1 (ihp h tells)
  | advance => exact tells.scan h.stands.stop_before
  | reread again => exact tells.reread h.stands again
  | within change p ih =>
    exact ih (s := { s with context := change s.context }) (h.congr rfl rfl) tells
  | guarded p ih =>
    by_cases free : s.depth < depthLimit
    · simp only [run, if_pos free]
      exact ih (s := { s with depth := s.depth + 1 }) (h.congr rfl rfl) tells
    · rw [run_guarded_of_limit_le p (Nat.not_lt.mp free), State.giveUp]
      split <;> exact tells
  | lookAhead p ih => exact rewound (ih h tells) s.scanner
  | attempt p ih =>
    simp only [run]
    split
    · exact ih h tells
    · exact rewound (ih h tells) s.scanner
  | labelled label p ih => exact ih h tells

theorem errors_run_ne_empty (p : Parse α) {s : State} (some : s.errors ≠ #[]) :
    (p.run s).2.errors ≠ #[] := by
  obtain ⟨kept, errors, -⟩ := p.errors_run s
  rw [errors]
  simp [some]

/-- When something was given up for good, there is an error. -/
theorem ownsUp_run (p : Parse α) {s : State} (h : s.OwnsUp) :
    (p.run s).2.OwnsUp ∧ (p.givenUp s ≠ 0 → (p.run s).2.errors ≠ #[]) := by
  induction p generalizing s with
  | done | observe | advance | reread | addNode | reshape | becomePattern =>
    exact ⟨h, fun lost => absurd rfl lost⟩
  | andThen p next ihp ihn =>
    obtain ⟨owns, told⟩ := ihp h
    obtain ⟨owns', told'⟩ := ihn (p.run s).1 owns
    refine ⟨owns', fun lost => ?_⟩
    rw [run_andThen]
    by_cases first : p.givenUp s = 0
    · refine told' fun second => lost ?_
      rw [givenUp, first, second]
    · exact errors_run_ne_empty _ (told first)
  | reportHere fault =>
    refine ⟨fun _ => ?_, fun lost => absurd rfl lost⟩
    obtain ⟨e, mem, -⟩ := s.exists_mem_reportHere fault
    exact Array.ne_empty_of_mem mem
  | within change p ih => exact ih (s := { s with context := change s.context }) h
  | guarded p ih =>
    by_cases free : s.depth < depthLimit
    · have inner := ih (s := { s with depth := s.depth + 1 }) fun deeper =>
        absurd deeper (Nat.not_lt.mpr free)
      simp only [run, givenUp, if_pos free]
      refine ⟨fun deeper => inner.1 ?_, inner.2⟩
      exact Nat.lt_of_lt_of_le deeper (Nat.sub_le _ _)
    · -- at the limit this is reported, and beyond it something was
      have told : s.giveUp.errors ≠ #[] := by
        rw [State.errors_giveUp]
        split
        · obtain ⟨e, mem, -⟩ := s.exists_mem_reportHere .expressionExpected
          exact Array.ne_empty_of_mem mem
        · rename_i notLimit
          exact h (Nat.lt_of_le_of_ne (Nat.not_lt.mp free) (Ne.symm notLimit))
      rw [run_guarded_of_limit_le p (Nat.not_lt.mp free)]
      exact ⟨fun _ => told, fun _ => told⟩
  | lookAhead p ih => exact ih h
  | attempt p ih =>
    by_cases succeeds : (p.run s).1.isSome ∧ (p.run s).2.errorCount = s.errorCount
    · simpa [run, givenUp, State.mark, succeeds] using ih h
    · obtain ⟨kept, errors, -⟩ := p.errors_run s
      refine ⟨fun deeper => ?_, fun lost => absurd (by simp [givenUp, succeeds]) lost⟩
      rw [show ((attempt p).run s).2 = (p.run s).2.rewind s.mark by
        simp [run, State.mark, succeeds]]
        at deeper ⊢
      have restored : ((p.run s).2.rewind s.mark).errors = s.errors := by
        simp [State.rewind, State.mark, errors]
      rw [restored]
      exact h deeper
  | labelled label p ih => exact ih h

end Parse

/-- Of errors in the order of their starts one is left for each start. -/
theorem pairwise_onePerStart {errors : List SyntaxError}
    (sorted : errors.Pairwise (·.start ≤ ·.start)) :
    (onePerStart errors).Pairwise (·.start < ·.start) ∧ ∀ e ∈ onePerStart errors, e ∈ errors := by
  fun_induction onePerStart errors with
  | case1 => exact ⟨.nil, fun _ mem => mem⟩
  | case2 e es ih =>
    have rest := (List.dropWhile_sublist (l := es) (·.start == e.start))
    obtain ⟨first, later⟩ := List.pairwise_cons.mp sorted
    obtain ⟨increasing, among⟩ := ih (later.sublist rest)
    refine ⟨List.pairwise_cons.mpr ⟨fun e' mem => ?_, increasing⟩, fun e' mem => ?_⟩
    · -- the first that is left starts elsewhere, and the others not before that one
      cases left : es.dropWhile (·.start == e.start) with
      | nil => simp [left, onePerStart] at mem
      | cons next others =>
        have elsewhere : next.start ≠ e.start := by
          have passes := List.head?_dropWhile_not (·.start == e.start) es
          simpa [left] using passes
        have after : e.start ≤ next.start := first next (rest.mem (left ▸ List.mem_cons_self))
        have order := later.sublist rest
        rw [left] at order
        have among' := among e' mem
        rw [left] at among'
        rcases List.mem_cons.mp among' with rfl | other
        · exact Nat.lt_of_le_of_ne after (Ne.symm elsewhere)
        · exact Nat.lt_of_lt_of_le (Nat.lt_of_le_of_ne after (Ne.symm elsewhere))
            (List.rel_of_pairwise_cons order other)
    · rcases List.mem_cons.mp mem with rfl | other
      · exact List.mem_cons_self
      · exact List.mem_cons_of_mem _ (rest.mem (among e' other))

/-- For each start one error is left. -/
theorem exists_mem_onePerStart {errors : List SyntaxError} {e : SyntaxError} (mem : e ∈ errors) :
    ∃ e' ∈ onePerStart errors, e'.start = e.start := by
  fun_induction onePerStart errors with
  | case1 => cases mem
  | case2 first es ih =>
    by_cases same : e.start = first.start
    · exact ⟨first, List.mem_cons_self, same.symm⟩
    · rcases List.mem_cons.mp mem with rfl | other
      · exact absurd rfl same
      · rw [← List.takeWhile_append_dropWhile (p := (·.start == first.start)) (l := es)] at other
        rcases List.mem_append.mp other with dropped | left
        · have passes := List.all_eq_true.mp List.all_takeWhile e dropped
          exact absurd (eq_of_beq passes) same
        · obtain ⟨e', left', starts⟩ := ih left
          exact ⟨e', List.mem_cons_of_mem _ left', starts⟩

namespace State

/-- The errors of a parse and of its scanner are put in order before they are told. -/
theorem pairwise_syntaxErrors (s : State) :
    s.syntaxErrors.Pairwise (·.start < ·.start) ∧
      ∀ e ∈ s.syntaxErrors, e ∈ s.errors ∨ e ∈ s.scanner.errors := by
  obtain ⟨increasing, among⟩ := pairwise_onePerStart
    (pairwise_mergeSort_key SyntaxError.start (s.errors.toList ++ s.scanner.errors.toList))
  refine ⟨increasing, fun e mem => ?_⟩
  simpa using List.mem_mergeSort.mp (among e mem)

/-- Every error is told, or one about the same place. -/
theorem exists_mem_syntaxErrors {s : State} {e : SyntaxError}
    (mem : e ∈ s.errors ∨ e ∈ s.scanner.errors) : ∃ e' ∈ s.syntaxErrors, e'.start = e.start :=
  exists_mem_onePerStart (List.mem_mergeSort.mpr (by simpa using mem))

end State

/-- What is told of the faults of a text. -/
structure TellsFaults (text : List Char) : Prop where
  increasing : (parseText text).errors.Pairwise (·.start < ·.start)
  inside : ∀ e ∈ (parseText text).errors, e.start + e.length ≤ byteSize text
  /-- An error starts and ends between characters of the text. -/
  bounded : ∀ e ∈ (parseText text).errors, ∃ before part after, text = before ++ part ++ after ∧
    byteSize before = e.start ∧ byteSize part = e.length
  /-- What the scanner met, and what was reported but in attempts that failed, is told, or something
  else about the same place. -/
  told : ∀ e, e ∈ (sourceFile.run (.ofText text)).2.scanner.errors ∨
    e ∈ sourceFile.reported (.ofText text) → ∃ e' ∈ (parseText text).errors, e'.start = e.start
  /-- Nothing else is told. -/
  met : ∀ e ∈ (parseText text).errors, e ∈ (sourceFile.run (.ofText text)).2.scanner.errors ∨
    e ∈ sourceFile.reported (.ofText text)
  /-- When a construct was given up at the limit, but in attempts that failed, something is told. -/
  givenUp : sourceFile.givenUp (.ofText text) ≠ 0 → (parseText text).errors ≠ []

theorem errors_parseText (text : List Char) :
    (parseText text).errors = (sourceFile.run (.ofText text)).2.syntaxErrors :=
  rfl

/-- Nothing was reported when the first token is reached, so the errors of a parse are reports. -/
theorem mem_reported_of_mem_errors {text : List Char} {e : SyntaxError}
    (mem : e ∈ (sourceFile.run (.ofText text)).2.errors) :
    e ∈ sourceFile.reported (.ofText text) := by
  obtain ⟨kept, errors, sub⟩ := sourceFile.errors_run (.ofText text)
  rw [errors] at mem
  exact sub.mem (by simpa [State.ofText] using mem)

/-- All that is told of the faults of a text concerns parts of it. -/
theorem standsIn_of_mem_errors {text : List Char} {e : SyntaxError}
    (mem : e ∈ (parseText text).errors) : e.StandsIn text := by
  have stands := standsIn_advance_ofText text
  obtain ⟨rest, is⟩ : ∃ rest, sourceFile = .andThen advance fun _ => rest := ⟨_, rfl⟩
  rw [errors_parseText] at mem
  rcases (State.pairwise_syntaxErrors _).2 e mem with kept | met
  · have reported := mem_reported_of_mem_errors kept
    rw [is] at reported
    exact rest.standsIn_of_mem_reported stands reported
  · have begins : (State.ofText text).advance.scanner.TellsOf text :=
      Token.Scanner.TellsOf.scan (s := .ofText text)
        (fun e mem => by simp [Token.Scanner.ofText] at mem)
        (.refl _)
    rw [is] at met
    exact rest.tellsOf_run stands begins e met

/-- Whatever the text, its faults are told in order and in their places, and none is passed over in
silence. -/
theorem tellsFaults_parseText (text : List Char) : TellsFaults text where
  increasing := (State.pairwise_syntaxErrors _).1
  inside e mem := (standsIn_of_mem_errors mem).le
  bounded e mem := standsIn_of_mem_errors mem
  told e mem := by
    rcases mem with met | reported
    · exact State.exists_mem_syntaxErrors (.inr met)
    · obtain ⟨e', kept, same⟩ := sourceFile.exists_mem_errors_of_reported reported
      obtain ⟨e'', mem, same'⟩ := State.exists_mem_syntaxErrors (.inl kept)
      exact ⟨e'', mem, same'.trans same⟩
  met e mem := by
    rw [errors_parseText] at mem
    exact ((State.pairwise_syntaxErrors _).2 e mem).symm.imp_right mem_reported_of_mem_errors
  givenUp lost := by
    have some := (sourceFile.ownsUp_run (s := .ofText text) fun deeper =>
      absurd deeper (Nat.not_lt_zero _)).2 lost
    exact fun none => not_isFaulty_of_syntaxErrors none (.inl some)

end Grammar
end LoopCapture
