import LoopCapture.Proofs.Grammar.Destructuring.Literal

/-!
# Patterns that might be parameters

Where an opening parenthesis is ahead, an arrow function is tried first. A pattern with a default is
a parameter, so the attempt goes on up to the closing parenthesis, and fails where no arrow follows.
-/

namespace LoopCapture.Grammar.Parse
open Text (Offset byteSize)
open Token (BeginsWith Cursor Gap Keyword Kind Punctuator Shows Word)
open Syntax (Child Node NodeId NodeTable)

variable {parse : Parser} {s : State} {c d : Cursor} {t : NodeTable} {k : Kind} {m : Punctuator}
  {v : String} {i : Offset}

theorem run_decorators (shows : Shows c k v i d) (begins : k.beginsOperand = true) :
    (decorators parse).run (s.facing c t) = ((), s.facing c t) := by
  have other : (k == .punctuator .atSign) = false := by
    cases k with
    | punctuator m => cases m <;> first | rfl | cases begins
    | _ => rfl
  rw [decorators, run_labelled]
  refine run_iterate_done ?_
  simp only [run_bind, optionalMark, run_optional_other shows other, Bool.false_eq_true, if_false,
    run_pure]

/-- No word makes a property of a parameter unless the target comes after it. -/
theorem run_parameterModifiers (shows : Shows c k v i d) (ahead : KeyAhead k d) :
    parameterModifiers.run (s.facing c t) = ((), s.facing c t) := by
  have noTarget (m : Punctuator) (v' i' d') (next : Shows d (.punctuator m) v' i' d')
      (ends : endsKey m = true) :
      (nextOnSameLine (atName <||> atMark .openBrace <||> atMark .openBracket)).run
        (s.facing c t) = (false, s.facing c t) := by
    refine run_nextOnSameLine shows ?_
    simp only [run_either, run_atName next, run_atMark next]
    cases m <;> first | rfl | cases ends
  refine run_iterate_done ?_
  simp only [run_bind, run_kind shows]
  obtain ⟨mark, rfl⟩ | ⟨m, v', i', d', next, ends⟩ := ahead
  · rfl
  · split <;> first | rfl | (rw [run_bind, noTarget m v' i' d' next ends]; rfl)

theorem run_parameterTarget (shows : Shows c k v i d) (begins : k.beginsOperand = true) :
    (parameterTarget parse).run (s.facing c t) = (parse .bindingTarget).run (s.facing c t) := by
  simp only [parameterTarget, run_bind, run_here shows, run_kind shows]
  cases k with
  | keyword word => cases word <;> first | rfl | cases begins
  | punctuator m => cases m <;> first | rfl | cases begins
  | identifier => rfl
  | _ => cases begins

theorem run_commaList_single {close k' : Kind} {c' d' : Cursor} {t' : NodeTable} {v' : String}
    {i' : Offset} {item : Parse Child} {node : NodeId} (first : Shows c k v i d)
    (opens : (k == close || k == .endOfFile) = false)
    (h : item.run (s.facing c t) = (some node, s.facing c' t')) (next : Shows c' k' v' i' d')
    (ends : (k' == .punctuator .comma) = false) :
    (commaList close item).run (s.facing c t) = ([node], s.facing c' t') := by
  have run : (commaList close item).run (s.facing c t) =
    (iterate #[] (commaRound close item) >>= fun items => pure items.toList).run (s.facing c t) :=
      rfl
  have loop : (iterate #[] (commaRound close item)).run (s.facing c t) =
      (#[node], s.facing c' t') := by
    refine run_iterate_done ?_
    simp only [commaRound, run_bind, run_atClose first, opens, Bool.false_eq_true, if_false, h,
      optionalMark, run_optional_other next ends, run_pure]
    rfl
  rw [run, run_bind, loop, run_pure]

variable {c' d' : Cursor} {t' : NodeTable} {v' : String} {i' : Offset}

theorem run_parameterList_single {e f : Cursor} {w w' : String} {j j' : Offset} {node : NodeId}
    (opens : Shows c (.punctuator .openParen) v i d) (first : Shows d k w j e)
    (begins : k.beginsOperand = true)
    (h : (parameter parse).run
      ({ s with context := { s.context with withoutIn := false } }.facing d t) =
      (some node, { s with context := { s.context with withoutIn := false } }.facing c' t'))
    (closes : Shows c' (.punctuator .closeParen) w' j' f) :
    (parameterList parse).run (s.facing c t) = ([node], s.facing f t') := by
  have opens' : (k == .punctuator .closeParen || k == .endOfFile) = false := by
    cases k with
    | punctuator m => cases m <;> first | rfl | cases begins
    | endOfFile => cases begins
    | _ => rfl
  have list : (allowIn (commaList (.punctuator .closeParen) (parameter parse))).run
      (s.facing d t) = ([node], s.facing c' t') :=
    run_within (run_commaList_single first opens' h closes rfl)
  simp only [parameterList, run_labelled, run_bind, expectMark, run_expect_same opens, if_true,
    list, run_discard, run_expect_same closes, run_pure]

/-- Parameters that no arrow follows are the head of no arrow function. -/
theorem run_arrowHead_none {params : List NodeId} (opens : Shows c (.punctuator .openParen) v i d)
    (h : (parameterList parse).run (s.facing c t) = (params, s.facing c' t'))
    (next : Shows c' (.punctuator m) v' i' d') (ends : m.endsOperand = true) :
    (arrowHead parse).run (s.facing c t) = (none, s.facing c' t') := by
  have noColon : (Kind.punctuator m == .punctuator .colon) = false := m.not_colon ends
  have noArrow : (Kind.punctuator m == .punctuator .arrow) = false := by
    cases m <;> first | rfl | cases ends
  have noName : (Kind.punctuator .openParen).isName = false := rfl
  have noAsync : (Kind.punctuator .openParen == .keyword .async_) = false := rfl
  have noLess : (Kind.punctuator .openParen == .punctuator .less) = false := rfl
  simp only [arrowHead, run_labelled, run_bind, run_here opens, run_both, run_atWord opens, noAsync,
    Bool.false_eq_true, if_false, run_atName opens, noName, typeParameters, optionalMark,
    run_optional_other opens noLess, run_pure, run_atMark opens, beq_self_eq_true, if_true, h,
    returnTypeAfterColon, run_optional_other next noColon, run_atMark next, noArrow]
  rfl

theorem run_arrowFunction_fails (opens : Shows c (.punctuator .openParen) v i d) {more : NodeTable}
    (h : (arrowHead parse).run (s.facing c t) = (none, s.facing c' (t ++ more))) :
    (arrowFunction parse).run (s.facing c t) = (none, s.facing c t) := by
  have may : mayBeArrow.run (s.facing c t) = (true, s.facing c t) := by
    simp only [mayBeArrow, run_bind, run_kind opens, run_pure]
  simp only [arrowFunction, run_labelled, run_bind, may, if_true, run_attempt_facing opens h,
    run_pure]

end LoopCapture.Grammar.Parse

namespace LoopCapture.Grammar.Phrase
open Parse
open Text (Offset byteSize)
open Token (BeginsWith Gap Kind Punctuator Shows Word)
open Syntax (Child NodeId NodeTable)

variable {s : State} {n : Nat} {after : Offset} {t : NodeTable} {cs : List Char}

theorem shows_target (x : Phrase .target) {mark : Punctuator} (follows : BeginsWith mark cs)
    (ends : mark.endsOperand = true) (after : Offset) :
    ∃ v d, Shows ⟨after, x.text ++ cs⟩ x.firstKind v (after + byteSize x.lead) d ∧
      KeyAhead x.firstKind d := by
  cases x with
  | name w =>
    obtain ⟨v, i, d, next⟩ := follows.shows (after + byteSize w.text)
    exact ⟨_, _, Token.shows_word w follows.endsName after,
      .inr ⟨_, _, _, _, next, by rw [endsKey, ends, Bool.true_or]⟩⟩
  | array opening es closing =>
    obtain ⟨v, d, first⟩ := (array opening es closing).shows_first rfl follows after
    exact ⟨v, d, first, .inl ⟨_, rfl⟩⟩
  | object opening ps closing =>
    obtain ⟨v, d, first⟩ := (object opening ps closing).shows_first rfl follows after
    exact ⟨v, d, first, .inl ⟨_, rfl⟩⟩

theorem run_parameter (x : Phrase .target) (eq : Gap) (d : Word) (fuel : 2 * x.levels ≤ n)
    (room : 3 ≤ n) (free : s.depth + 2 ≤ depthLimit) (outside : s.context.isGenerator = false)
    {mark : Punctuator} (follows : BeginsWith mark cs) (ends : mark.endsOperand = true)
    (noEq : mark ≠ .eq)
    (fits : after + byteSize (x.text ++ (eq.mark .eq ++ (d.text ++ cs))) ≤ s.size) :
    (parameter (parseUpTo (n + 1))).run
        (s.facing ⟨after, x.text ++ (eq.mark .eq ++ (d.text ++ cs))⟩ t) =
      (some (t.size + (defaulted x eq d).count),
        s.facing ⟨after + byteSize (defaulted x eq d).text, cs⟩
          (t ++ ((defaulted x eq d).nodes false t.size after).push ((defaulted x eq d).node after
            (.parameter ((defaulted x eq d).root t.size) false none)))) := by
  have opens : BeginsWith .eq (eq.mark .eq ++ (d.text ++ cs)) :=
    .mark_append eq (Token.ends_word d cs)
  obtain ⟨v, d', first, ahead⟩ := x.shows_target opens rfl after
  have shows := Token.shows_mark eq (Token.ends_word d cs) (after + byteSize x.text)
  have target := x.reads_bindingTarget fuel free outside (t := t) opens rfl (fun _ => rfl) fits
  have le := Nat.add_le_add_left (defaulted x eq d).byteSize_lead_le after
  simp only [lead, text, Text.byteSize_append, ← Nat.add_assoc] at le
  have noQuestion : (Kind.punctuator .eq == .punctuator .question) = false := rfl
  have noColon : (Kind.punctuator .eq == .punctuator .colon) = false := rfl
  have default := run_shorthandDefault_eq (Token.ends_word d cs) (x.root t.size) le
    (run_assignment_word (Nat.succ_le_succ room) free outside follows ends noEq
      (t := t ++ x.nodes false t.size after))
  simp only [parameter, run_labelled, run_bind, run_here first,
    run_decorators first x.begins_target, run_parameterModifiers first ahead,
    run_parameterTarget first x.begins_target, target, optionalMark,
    run_optional_other shows noQuestion, typeAfterColon, run_optional_other shows noColon,
    Bool.false_eq_true, if_false, run_pure, default, run_finish_at le]
  simp only [nodes, Array.append_push, Array.size_push, Array.size_append, size_nodes, node, text,
    Text.byteSize_append, ← Nat.add_assoc]
  rfl

/-- An assignment between parentheses is no arrow function where no arrow follows. -/
theorem run_arrowFunction_parenthesized (x : Phrase .target) (opening eq : Gap) (d : Word)
    (closing : Gap) (fuel : 2 * x.levels ≤ n) (room : 3 ≤ n) (free : s.depth + 2 ≤ depthLimit)
    (outside : s.context.isGenerator = false) {mark : Punctuator} (follows : BeginsWith mark cs)
    (ends : mark.endsOperand = true)
    (fits : after + byteSize (opening.mark .openParen ++ (x.text ++ (eq.mark .eq ++
      (d.text ++ (closing.mark .closeParen ++ cs))))) ≤ s.size) :
    (arrowFunction (parseUpTo (n + 1))).run
        (s.facing ⟨after, opening.mark .openParen ++ (x.text ++ (eq.mark .eq ++
          (d.text ++ (closing.mark .closeParen ++ cs))))⟩ t) =
      (none, s.facing ⟨after, opening.mark .openParen ++ (x.text ++ (eq.mark .eq ++
          (d.text ++ (closing.mark .closeParen ++ cs))))⟩ t) := by
  have opens := Token.shows_plain opening .openParen rfl
    (x.text ++ (eq.mark .eq ++ (d.text ++ (closing.mark .closeParen ++ cs)))) after
  obtain ⟨v, d', first⟩ := x.shows_first rfl
    (.mark_append eq (Token.ends_word d (closing.mark .closeParen ++ cs)))
    (after + byteSize (opening.mark .openParen))
  have closes := Token.shows_plain closing .closeParen rfl cs
    (after + byteSize (opening.mark .openParen) + byteSize (defaulted x eq d).text)
  obtain ⟨v', i', d'', next⟩ := follows.shows (after + byteSize (opening.mark .openParen) +
    byteSize (defaulted x eq d).text + byteSize (closing.mark .closeParen))
  rw [Text.byteSize_append, ← Nat.add_assoc] at fits
  have parameter := x.run_parameter (t := t)
    (s := { s with context := { s.context with withoutIn := false } }) eq d fuel room free outside
    (.plain_append closing .closeParen rfl cs) rfl (by simp) fits
  exact run_arrowFunction_fails opens (run_arrowHead_none opens
    (run_parameterList_single opens first x.begins_target parameter closes) next ends)

end LoopCapture.Grammar.Phrase
