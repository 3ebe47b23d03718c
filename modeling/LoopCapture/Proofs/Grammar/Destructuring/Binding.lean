import LoopCapture.Proofs.Grammar.Destructuring.Words

/-!
# Patterns in declarations

The grammar of declarations reads a pattern as it is written, with no nodes but those of the
pattern.
-/

namespace LoopCapture.Token

theorem Kind.not_ellipsis {k : Kind} (begins : k.beginsOperand = true) :
    (k == .punctuator .ellipsis) = false := by
  cases k with
  | punctuator m => cases m <;> first | rfl | cases begins
  | _ => rfl

theorem Kind.not_star {k : Kind} (begins : k.beginsOperand = true) :
    (k == .punctuator .star) = false := by
  cases k with
  | punctuator m => cases m <;> first | rfl | cases begins
  | _ => rfl

theorem Punctuator.not_colon {m : Punctuator} (ends : m.endsOperand = true) :
    (Kind.punctuator m == .punctuator .colon) = false := by
  cases m <;> first | rfl | cases ends

theorem Punctuator.not_eq {m : Punctuator} (noEq : m ≠ .eq) :
    (Kind.punctuator m == .punctuator .eq) = false :=
  beq_eq_false_iff_ne.mpr fun is => noEq (by injection is)

end LoopCapture.Token

namespace LoopCapture.Grammar.Phrase
open Parse
open Text (Offset byteSize)
open Token (BeginsWith Gap Kind Punctuator Shows Word)
open Syntax (Child NodeId NodeTable)

variable {f : Form} {parse : Parser} {s : State} {n : Nat}

theorem begins_target (x : Phrase .target) : x.firstKind.beginsOperand = true := by
  cases x with
  | name n => exact n.name.beginsOperand_kind
  | array | object => rfl

theorem begins_value (x : Phrase .value) : x.firstKind.beginsOperand = true := by
  cases x with
  | plain t | defaulted t => exact t.begins_target

def bindingSteps (n : Nat) : Steps where
  target := parseUpTo (n + 1) .bindingTarget
  value := bindingElement (parseUpTo n)
  element := bindingArrayElement (parseUpTo n)
  property := bindingProperty (parseUpTo n)

theorem binds_name (w : Word) : Reads (parseUpTo (n + 1) .bindingTarget) s false (name w) := by
  intro after t mark cs follows _ _ _
  have first := Token.shows_word w follows.endsName after
  have choice : (bindingTarget (parseUpTo n)).run (s.facing ⟨after, w.text ++ cs⟩ t) =
      identifier.run (s.facing ⟨after, w.text ++ cs⟩ t) := by
    rw [bindingTarget, run_bind, run_kind first]
    obtain is | ⟨word, is, -⟩ := w.name.kind_eq <;> rw [is]
  exact choice.trans (run_identifier_word follows.endsName)

theorem binds_array {es : Phrase .elements}
    (inner : ReadsElements (bindingArrayElement (parseUpTo n)) s false es) (opening closing : Gap) :
    Reads (parseUpTo (n + 1) .bindingTarget) s false (array opening es closing) :=
  reads_array (elementList (bindingArrayElement (parseUpTo n))) opening closing
    (fun c v i d t first => by
      have choice : (parseUpTo (n + 1) .bindingTarget).run (s.facing c t) =
          (bindingTarget (parseUpTo n)).run (s.facing c t) := rfl
      rw [choice, bindingTarget, run_bind, run_kind first]
      rfl)
    (fun _ _ _ follows fits => run_elementList inner follows fits)

theorem binds_object {ps : Phrase .properties}
    (inner : ReadsMembers (bindingProperty (parseUpTo n)) s false ps) (opening closing : Gap) :
    Reads (parseUpTo (n + 1) .bindingTarget) s false (object opening ps closing) :=
  reads_object (commaList (.punctuator .closeBrace) (bindingProperty (parseUpTo n))) opening closing
    (fun c v i d t first => by
      have choice : (parseUpTo (n + 1) .bindingTarget).run (s.facing c t) =
          (bindingTarget (parseUpTo n)).run (s.facing c t) := rfl
      rw [choice, bindingTarget, run_bind, run_kind first]
      rfl)
    (fun _ _ _ follows fits => run_memberList inner follows fits)

theorem binds_plain {x : Phrase .target} (inner : Reads (parse .bindingTarget) s false x) :
    Reads (bindingElement parse) s false (plain x) := by
  intro after t mark cs follows ends noEq fits
  obtain ⟨v, d, first⟩ := x.shows_first rfl follows after
  obtain ⟨v', i', d', next⟩ := follows.shows (after + byteSize x.text)
  have other := Punctuator.not_eq (m := mark) fun is => by cases noEq is
  rw [text] at fits ⊢
  simp only [bindingElement, run_labelled, run_bind, run_here first,
    inner follows ends (fun _ => rfl) fits, optionalMark, run_optional_other next other,
    Bool.false_eq_true, if_false, run_pure]
  rfl

theorem binds_defaulted {x : Phrase .target} (fuel : 4 ≤ n) (free : s.depth + 2 ≤ depthLimit)
    (outside : s.context.isGenerator = false)
    (inner : Reads (parseUpTo n .bindingTarget) s false x) (eq : Gap) (default : Word) :
    Reads (bindingElement (parseUpTo n)) s false (defaulted x eq default) := by
  intro after t mark cs follows ends noEq fits
  have opens : BeginsWith .eq (eq.mark .eq ++ (default.text ++ cs)) :=
    .mark_append eq (Token.ends_word default cs)
  simp only [text, List.append_assoc] at fits ⊢
  obtain ⟨v, d, first⟩ := x.shows_first rfl opens after
  have shows := Token.shows_mark eq (Token.ends_word default cs) (after + byteSize x.text)
  have right : (allowIn (parseUpTo n .assignment)).run
      (s.facing ⟨after + byteSize x.text + byteSize (eq.mark .eq), default.text ++ cs⟩
        (t ++ x.nodes false t.size after)) = (some (t.size + x.count), s.facing
      ⟨after + byteSize x.text + byteSize (eq.mark .eq) + byteSize default.text, cs⟩
        ((t ++ x.nodes false t.size after).push
          (nameNode default (after + byteSize x.text + byteSize (eq.mark .eq)) .identifier))) := by
    rw [← size_nodes false x t.size after, ← Array.size_append]
    exact run_within (run_assignment_word fuel free outside follows ends
      fun is => by cases noEq is)
  have le := Nat.add_le_add_left (defaulted x eq default).byteSize_lead_le after
  simp only [lead, text, Text.byteSize_append, ← Nat.add_assoc] at le
  simp only [bindingElement, run_labelled, run_bind, run_here first,
    inner opens rfl (fun _ => rfl) fits, optionalMark, run_optional_same shows, if_true, right,
    run_finish_at le, run_pure]
  rw [nodes, Array.append_push, Array.append_push, Array.size_push, Array.size_append, size_nodes]
  simp only [node, text, Text.byteSize_append, ← Nat.add_assoc]
  rfl

theorem binds_item {x : Phrase .value} (inner : Reads (bindingElement parse) s false x) :
    Reads (bindingArrayElement parse) s false (item x) := by
  intro after t mark cs follows ends noEq fits
  obtain ⟨v, d, first⟩ := x.shows_first rfl follows after
  rw [text] at fits ⊢
  simp only [bindingArrayElement, run_bind, run_here first, optionalMark,
    run_optional_other first (Kind.not_ellipsis x.begins_value), Bool.false_eq_true, if_false]
  exact inner follows ends (fun is => by cases noEq is) fits

theorem binds_rest {x : Phrase .target} (inner : Reads (parse .bindingTarget) s false x)
    (dots : Gap) : Reads (bindingArrayElement parse) s false (rest dots x) := by
  refine reads_rest (x := x) (parse .bindingTarget)
    (fun _ _ _ _ follows ends _ fits => inner follows ends (fun _ => rfl) fits) dots
    fun c v i d t first => ?_
  simp only [bindingArrayElement, run_bind, run_here first, optionalMark, run_optional_same first,
    if_true, spreading, run_advance first, Bool.false_eq_true, if_false]

theorem binds_restProperty {x : Phrase .target} (inner : Reads (parse .bindingTarget) s false x)
    (dots : Gap) : Reads (bindingProperty parse) s false (restProperty dots x) := by
  refine reads_restProperty (x := x) (parse .bindingTarget)
    (fun _ _ _ _ follows ends _ fits => inner follows ends (fun _ => rfl) fits) dots
    fun c v i d t first => ?_
  simp only [bindingProperty, run_bind, run_here first, optionalMark, run_optional_same first,
    if_true, spreading, run_advance first, Bool.false_eq_true, if_false]

theorem binds_word (w : Word) :
    TakesShorthand (bindingProperty parse) (allowIn (parse .assignment)) s w := by
  intro after t mark cs follows ends
  have first := Token.shows_word w follows.endsName after
  obtain ⟨v, i, d, next⟩ := follows.shows (after + byteSize w.text)
  have noDots := Kind.not_ellipsis w.name.beginsOperand_kind
  have noColon := mark.not_colon ends
  simp only [bindingProperty, run_bind, run_here first, optionalMark,
    run_optional_other first noDots, Bool.false_eq_true, if_false, run_both, run_atName first,
    w.name.isName_kind, if_true, run_nextIsMark first next, noColon, run_pure, Bool.not_false,
    run_value first, run_tokenEnd first, run_advance first, run_addNode]
  rw [Array.size_push]
  rfl

theorem binds_named {v : Phrase .value} (inner : Reads (bindingElement parse) s false v)
    (key : Word) (colon : Gap) :
    Reads (bindingProperty parse) s false (named key colon v) := by
  refine reads_named inner key colon fun after t cs => ?_
  have ends : Token.EndsName (colon.mark .colon ++ cs) := Token.endsName_mark colon (.inl rfl)
  have first := Token.shows_word key ends after
  have next := Token.shows_plain colon .colon rfl cs (after + byteSize key.text)
  have noDots := Kind.not_ellipsis key.name.beginsOperand_kind
  simp only [bindingProperty, run_bind, run_here first, optionalMark,
    run_optional_other first noDots, Bool.false_eq_true, if_false, run_both, run_atName first,
    key.name.isName_kind, if_true, run_nextIsMark first next, beq_self_eq_true, run_pure,
    Bool.not_true, run_propertyKey_word ends, run_discard, expectMark, run_expect_same next]
  rfl

theorem binds_computed {v : Phrase .value} (fuel : 4 ≤ n) (free : s.depth + 2 ≤ depthLimit)
    (outside : s.context.isGenerator = false)
    (inner : Reads (bindingElement (parseUpTo n)) s false v) (opening : Gap) (key : Word)
    (closing colon : Gap) :
    Reads (bindingProperty (parseUpTo n)) s false (computed opening key closing colon v) := by
  refine reads_computed inner key opening closing colon fun after t cs => ?_
  have first := Token.shows_plain opening .openBracket rfl
    (key.text ++ (closing.mark .closeBracket ++ (colon.mark .colon ++ cs))) after
  have next := Token.shows_plain colon .colon rfl cs (after + byteSize (opening.mark .openBracket) +
    byteSize key.text + byteSize (closing.mark .closeBracket))
  have noDots : (Kind.punctuator .openBracket == .punctuator .ellipsis) = false := rfl
  have noName : (Kind.punctuator .openBracket).isName = false := rfl
  simp only [bindingProperty, run_bind, run_here first, optionalMark,
    run_optional_other first noDots, Bool.false_eq_true, if_false, run_both, run_atName first,
    noName, run_propertyKey_computed fuel free outside, run_discard, expectMark,
    run_expect_same next]
  rfl

/-- The grammar of declarations reads every phrase as a pattern. -/
theorem isRead_binding (x : Phrase f) (fuel : 2 * x.levels ≤ n) (free : s.depth + 2 ≤ depthLimit)
    (outside : s.context.isGenerator = false) : x.IsRead (bindingSteps n) s false := by
  -- A target below another phrase is one goal more, for which there is room.
  have below {x : Phrase .target} {n : Nat} (room : 2 * x.levels + 4 ≤ n)
      (ih : ∀ {n}, 2 * x.levels ≤ n → x.IsRead (bindingSteps n) s false) :
      Reads (parseUpTo n .bindingTarget) s false x := by
    obtain ⟨n, rfl⟩ := Nat.exists_eq_add_of_le' (Nat.le_of_add_left_le room)
    exact ih (n := n + 3) (Nat.le_of_succ_le_succ (Nat.le_trans (Nat.le_add_right _ 3) room))
  induction x generalizing n with
  | name w => exact binds_name w
  | array opening es closing ih => exact binds_array (ih fuel) opening closing
  | object opening ps closing ih => exact binds_object (ih fuel) opening closing
  | plain x ih => exact binds_plain (below fuel ih)
  | defaulted x eq d ih =>
    rw [levels] at fuel
    exact binds_defaulted (by omega) free outside (below (by omega) ih) eq d
  | item x ih => exact binds_item (ih fuel)
  | rest dots x ih => exact binds_rest (below fuel ih) dots
  | noElements => exact readsElements_none
  | hole comma es ih => exact readsElements_hole (ih fuel)
  | lastElement e ih => exact readsElements_last (ih fuel)
  | moreElements e comma es ihe ih =>
    rw [levels] at fuel
    exact readsElements_more (ihe (by omega)) (ih (by omega))
  | shorthand w => exact reads_shorthand (binds_word w)
  | shorthandDefaulted w eq d =>
    exact reads_shorthandDefaulted (binds_word w) eq d fun _ _ _ _ follows ends noEq =>
      run_within (run_assignment_word fuel free outside follows ends noEq)
  | named key colon v ih => exact binds_named (ih fuel) key colon
  | computed opening key closing colon v ih =>
    rw [levels] at fuel
    exact binds_computed (by omega) free outside (ih (by omega)) opening key closing colon
  | restProperty dots x ih => exact binds_restProperty (below fuel ih) dots
  | noProperties => exact readsMembers_none
  | lastProperty p ih => exact readsMembers_last (ih fuel)
  | moreProperties p comma ps ihp ih =>
    rw [levels] at fuel
    exact readsMembers_more (ihp (by omega)) (ih (by omega))

theorem reads_bindingTarget (x : Phrase .target) (fuel : 2 * x.levels ≤ n)
    (free : s.depth + 2 ≤ depthLimit) (outside : s.context.isGenerator = false) :
    Reads (parseUpTo (n + 1) .bindingTarget) s false x :=
  x.isRead_binding fuel free outside

end LoopCapture.Grammar.Phrase
