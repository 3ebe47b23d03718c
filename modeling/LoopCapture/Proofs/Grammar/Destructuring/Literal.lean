import LoopCapture.Proofs.Grammar.Destructuring.Binding

/-!
# Patterns in expressions

The grammar of expressions reads a pattern as a literal. The operand before an equals sign becomes
a pattern as soon as the sign is met; the outermost literal is left to whoever assigns to it.
-/

namespace LoopCapture.Grammar.Parse
open Phrase (nameNode)
open Text (Offset byteSize)
open Token (BeginsWith Cursor Gap Keyword Kind Punctuator Shows Word)
open Syntax (Child Node NodeId NodeTable)

variable {parse : Parser} {s : State} {c c' d d' : Cursor} {t t' : NodeTable} {k : Kind}
  {m : Punctuator} {v v' : String} {i i' : Offset}

/-- The marks that may follow the key of a property that has no modifiers and no parameters. -/
def endsKey (m : Punctuator) : Bool := m.endsOperand || m == .colon

theorem run_modifiesProperty (shows : Shows c k v i d) (next : Shows d (.punctuator m) v' i' d')
    (ends : endsKey m = true) : modifiesProperty.run (s.facing c t) = (false, s.facing c t) := by
  refine run_lookAhead_facing shows d ?_
  rw [run_bind, run_advance shows, run_bind, run_kind next]
  cases m <;> first | rfl | cases ends

/-- A token that is the key of a property and no modifier: a mark, or a word before a mark that ends
a key. -/
def KeyAhead (k : Kind) (d : Cursor) : Prop :=
  (∃ mark, k = .punctuator mark) ∨ ∃ m v i d', Shows d (.punctuator m) v i d' ∧ endsKey m = true

theorem run_isModifier (shows : Shows c k v i d) (ahead : KeyAhead k d) (word : Keyword) :
    (atWord word <&&> modifiesProperty).run (s.facing c t) = (false, s.facing c t) := by
  rw [run_both, run_atWord shows]
  obtain ⟨mark, rfl⟩ | ⟨m, v', i', d', next, ends⟩ := ahead
  · rfl
  · rw [run_modifiesProperty shows next ends]
    cases k == .keyword word <;> rfl

theorem run_atAsyncProperty (shows : Shows c k v i d) (ahead : KeyAhead k d) :
    atAsyncProperty.run (s.facing c t) = (false, s.facing c t) := by
  rw [atAsyncProperty, run_both, run_atWord shows]
  obtain ⟨mark, rfl⟩ | ⟨m, v', i', d', next, ends⟩ := ahead
  · rfl
  · have sameLine : (nextOnSameLine (return true)).run (s.facing c t) =
        (!(Token.Scanner.next d).lineBreak, s.facing c t) := by
      refine run_lookAhead_facing shows d ?_
      have look : afterLineBreak.run (s.facing d t) =
        ((Token.Scanner.next d).lineBreak, s.facing d t) := rfl
      rw [run_bind, run_advance shows, run_bind, look, run_ite, run_pure, run_pure]
      cases (Token.Scanner.next d).lineBreak <;> rfl
    rw [run_both, sameLine, run_modifiesProperty shows next ends]
    cases k == .keyword .async_ <;> cases (Token.Scanner.next d).lineBreak <;> rfl

/-- A property is its key and what a colon or the lack of one makes of it. -/
theorem run_objectProperty {key : NodeId} {computed : Bool} (first : Shows c k v i d)
    (noStar : (k == .punctuator .star) = false) (ahead : KeyAhead k d)
    (h : (propertyKey parse).run (s.facing c t) = ((some key, computed), s.facing c' t'))
    (next : Shows c' (.punctuator m) v' i' d') (ends : endsKey m = true) (start : Offset) :
    (objectProperty parse start).run (s.facing c t) = (do
      if ← optionalMark .colon then
        let content ← parse .assignment
        finish start (.property ⟨key, content, .init, computed, false, false⟩)
      else shorthandProperty parse start key computed : Parse Child).run (s.facing c' t') := by
  have noParameters : atParameters.run (s.facing c' t') = (false, s.facing c' t') := by
    simp only [atParameters, run_either, run_atMark next]
    cases m <;> first | rfl | cases ends
  simp only [objectProperty, run_bind, run_atAsyncProperty first ahead, Bool.false_eq_true,
    if_false, optionalMark, run_optional_other first noStar, Bool.or_self,
    run_isModifier first ahead, run_pure, ne_eq, not_true_eq_false, h, noParameters]
  rfl

theorem run_shorthandProperty (w : Word) (after : Offset) :
    (shorthandProperty parse (after + byteSize w.gap.text) t.size false).run
        (s.facing c (t.push (nameNode w after .propertyName))) =
      (shorthandRest (parse .assignment) (after + byteSize w.gap.text) t.size (t.size + 1)).run
        (s.facing c
          ((t.push (nameNode w after .propertyName)).push (nameNode w after .identifier))) := by
  have found : (t.push (nameNode w after .propertyName))[t.size]? =
      some (nameNode w after .propertyName) := Array.getElem?_push_size
  have shape : (shapeOf t.size).run (s.facing c (t.push (nameNode w after .propertyName))) =
      (some (.propertyName w.name.value), s.facing c (t.push (nameNode w after .propertyName))) :=
    Prod.ext (congrArg (Option.map Node.shape) found) rfl
  have state : Grammar.state.run (s.facing c (t.push (nameNode w after .propertyName))) =
      (s.facing c (t.push (nameNode w after .propertyName)),
        s.facing c (t.push (nameNode w after .propertyName))) := rfl
  have nodes : (s.facing c (t.push (nameNode w after .propertyName))).nodes[t.size]? =
      some (nameNode w after .propertyName) := found
  simp only [shorthandProperty, run_bind, shape, state, nodes, run_addNode, Array.size_push]
  rfl

end LoopCapture.Grammar.Parse

namespace LoopCapture.Grammar.Phrase
open Parse
open Text (Offset byteSize)
open Token (BeginsWith Gap Kind Punctuator Shows Word)
open Syntax (Child NodeId NodeTable)

variable {f : Form} {parse : Parser} {s : State} {n : Nat}

def literalSteps (n : Nat) : Steps where
  target := primary (parseUpTo n)
  value := parseUpTo n .assignment
  element := spreadable (parseUpTo n)
  property := objectMember (parseUpTo n)

theorem reads_arrayLiteral {es : Phrase .elements}
    (inner : ReadsElements (spreadable parse)
      { s with context := { s.context with withoutIn := false } } true es)
    (opening closing : Gap) : Reads (primary parse) s true (array opening es closing) :=
  reads_array (allowIn (elementList (spreadable parse))) opening closing
    (fun c v i d t first => by
      rw [primary, run_labelled, run_bind, run_here first, run_bind, run_kind first]
      rfl)
    fun _ _ _ follows fits => run_within (run_elementList inner follows fits)

theorem reads_objectLiteral {ps : Phrase .properties}
    (inner : ReadsMembers (objectMember parse)
      { s with context := { s.context with withoutIn := false } } true ps)
    (opening closing : Gap) : Reads (primary parse) s true (object opening ps closing) :=
  reads_object (allowIn (commaList (.punctuator .closeBrace) (objectMember parse)))
    opening closing
    (fun c v i d t first => by
      rw [primary, run_labelled, run_bind, run_here first, run_bind, run_kind first]
      rfl)
    fun _ _ _ follows fits => run_within (run_memberList inner follows fits)

/-- What is assigned to is no parameter of an arrow function. -/
theorem run_arrowFunction_target (x : Phrase .target) {after : Offset} {t : NodeTable}
    {mark : Punctuator} {cs : List Char} (follows : BeginsWith mark cs)
    (ends : mark.endsOperand = true) :
    (arrowFunction parse).run (s.facing ⟨after, x.text ++ cs⟩ t) =
      (none, s.facing ⟨after, x.text ++ cs⟩ t) := by
  refine run_arrowFunction ?_
  obtain ⟨v, d, first⟩ := x.shows_first rfl follows after
  cases x with
  | name w =>
    obtain ⟨v', i', d', next⟩ := follows.shows (after + byteSize w.text)
    exact run_mayBeArrow_name (Token.shows_word w follows.endsName after) w.name.isName_kind next
      ends
  | array => exact run_mayBeArrow_bracket first (.inl rfl)
  | object => exact run_mayBeArrow_bracket first (.inr rfl)

theorem reads_plain {x : Phrase .target} (free : s.depth + 1 < depthLimit)
    (outside : s.context.isGenerator = false)
    (inner : Reads (primary (parseUpTo n)) { s with depth := s.depth + 2 } true x) :
    Reads (parseUpTo (n + 4) .assignment) s true (plain x) := by
  intro after t mark cs follows ends noEq fits
  obtain ⟨v, d, first⟩ := x.shows_first rfl follows after
  obtain ⟨v', i', d', next⟩ := follows.shows (after + byteSize x.text)
  exact run_assignment_operand free outside first x.begins_target next ends
    (fun is => by cases noEq is) (run_arrowFunction_target x follows ends)
    (inner follows ends (fun _ => rfl) fits)

theorem reads_defaulted {x : Phrase .target} (fuel : 1 ≤ n) (free : s.depth + 3 ≤ depthLimit)
    (outside : s.context.isGenerator = false)
    (inner : Reads (primary (parseUpTo n)) { s with depth := s.depth + 2 } true x)
    (eq : Gap) (d : Word) : Reads (parseUpTo (n + 4) .assignment) s true (defaulted x eq d) := by
  intro after t mark cs follows ends noEq fits
  have opens : BeginsWith .eq (eq.mark .eq ++ (d.text ++ cs)) :=
    .mark_append eq (Token.ends_word d cs)
  simp only [text, List.append_assoc] at fits ⊢
  obtain ⟨v, d', first⟩ := x.shows_first rfl opens after
  have shows := Token.shows_mark eq (Token.ends_word d cs) (after + byteSize x.text)
  have le := Nat.add_le_add_left (defaulted x eq d).byteSize_lead_le after
  simp only [lead, text, Text.byteSize_append, ← Nat.add_assoc] at le
  have right : (parseUpTo (n + 3) .assignment).run ({ s with depth := s.depth + 1 }.facing
      ⟨after + byteSize x.text + byteSize (eq.mark .eq), d.text ++ cs⟩
        (NodeTable.asPattern (t ++ x.nodes true t.size after) (x.root t.size))) =
      (some (t.size + x.count), { s with depth := s.depth + 1 }.facing
      ⟨after + byteSize x.text + byteSize (eq.mark .eq) + byteSize d.text, cs⟩
        ((t ++ x.nodes false t.size after).push
          (nameNode d (after + byteSize x.text + byteSize (eq.mark .eq)) .identifier))) := by
    rw [asPattern_target, ← size_nodes false x t.size after, ← Array.size_append]
    exact run_assignment_word (Nat.add_le_add_right fuel 3) (by exact free) outside follows ends
      fun is => by cases noEq is
  rw [run_assignment_eq (Nat.lt_of_succ_lt free) outside first x.begins_target shows
    (run_arrowFunction_target x opens rfl) (inner opens rfl (fun _ => rfl) fits) right le]
  simp only [nodes, Array.append_push, Array.size_push, Array.size_append, size_nodes, node, text,
    Text.byteSize_append, ← Nat.add_assoc]
  rfl

theorem reads_item {x : Phrase .value} (inner : Reads (parse .assignment) s true x) :
    Reads (spreadable parse) s true (item x) := by
  intro after t mark cs follows ends noEq fits
  obtain ⟨v, d, first⟩ := x.shows_first rfl follows after
  rw [text] at fits ⊢
  simp only [spreadable, run_labelled, run_bind, run_here first, optionalMark,
    run_optional_other first (Kind.not_ellipsis x.begins_value), Bool.false_eq_true, if_false]
  exact inner follows ends (fun is => by cases noEq is) fits

theorem reads_spread {x : Phrase .target} (inner : Reads (parse .assignment) s true (plain x))
    (dots : Gap) : Reads (spreadable parse) s true (rest dots x) := by
  refine reads_rest _ inner dots fun c v i d t first => ?_
  simp only [spreadable, run_labelled, run_bind, run_here first, optionalMark,
    run_optional_same first, if_true, spreading, run_advance first]

theorem reads_spreadProperty {x : Phrase .target}
    (inner : Reads (parse .assignment) s true (plain x)) (dots : Gap) :
    Reads (objectMember parse) s true (restProperty dots x) := by
  refine reads_restProperty _ inner dots fun c v i d t first => ?_
  simp only [objectMember, run_labelled, run_bind, run_here first, optionalMark,
    run_optional_same first, if_true, spreading, run_advance first]

theorem reads_word (w : Word) : TakesShorthand (objectMember parse) (parse .assignment) s w := by
  intro after t mark cs follows ends
  have first := Token.shows_word w follows.endsName after
  obtain ⟨v, i, d, next⟩ := follows.shows (after + byteSize w.text)
  have key : endsKey mark = true := by rw [endsKey, ends, Bool.true_or]
  have noDots := Kind.not_ellipsis w.name.beginsOperand_kind
  have noStar := Kind.not_star w.name.beginsOperand_kind
  simp only [objectMember, run_labelled, run_bind, run_here first, optionalMark,
    run_optional_other first noDots, Bool.false_eq_true, if_false]
  rw [run_objectProperty first noStar (.inr ⟨_, _, _, _, next, key⟩)
    (run_propertyKey_word follows.endsName) next key]
  simp only [run_bind, optionalMark, run_optional_other next (mark.not_colon ends),
    Bool.false_eq_true, if_false]
  exact run_shorthandProperty w after

theorem reads_keyed {v : Phrase .value} (inner : Reads (parse .assignment) s true v)
    (key : Word) (colon : Gap) : Reads (objectMember parse) s true (named key colon v) := by
  refine reads_named inner key colon fun after t cs => ?_
  have ends : Token.EndsName (colon.mark .colon ++ cs) := Token.endsName_mark colon (.inl rfl)
  have first := Token.shows_word key ends after
  have next := Token.shows_plain colon .colon rfl cs (after + byteSize key.text)
  have noDots := Kind.not_ellipsis key.name.beginsOperand_kind
  have noStar := Kind.not_star key.name.beginsOperand_kind
  simp only [objectMember, run_labelled, run_bind, run_here first, optionalMark,
    run_optional_other first noDots, Bool.false_eq_true, if_false]
  rw [run_objectProperty first noStar (.inr ⟨_, _, _, _, next, rfl⟩) (run_propertyKey_word ends)
    next rfl]
  simp only [run_bind, optionalMark, run_optional_same next, if_true]
  rfl

theorem reads_computedKey {v : Phrase .value} (fuel : 4 ≤ n) (free : s.depth + 2 ≤ depthLimit)
    (outside : s.context.isGenerator = false)
    (inner : Reads (parseUpTo n .assignment) s true v) (opening : Gap) (key : Word)
    (closing colon : Gap) :
    Reads (objectMember (parseUpTo n)) s true (computed opening key closing colon v) := by
  refine reads_computed inner key opening closing colon fun after t cs => ?_
  have first := Token.shows_plain opening .openBracket rfl
    (key.text ++ (closing.mark .closeBracket ++ (colon.mark .colon ++ cs))) after
  have next := Token.shows_plain colon .colon rfl cs (after + byteSize (opening.mark .openBracket) +
    byteSize key.text + byteSize (closing.mark .closeBracket))
  have noDots : (Kind.punctuator .openBracket == .punctuator .ellipsis) = false := rfl
  simp only [objectMember, run_labelled, run_bind, run_here first, optionalMark,
    run_optional_other first noDots, Bool.false_eq_true, if_false]
  rw [run_objectProperty first rfl (.inl ⟨_, rfl⟩)
    (run_propertyKey_computed fuel free outside opening closing) next rfl]
  simp only [run_bind, optionalMark, run_optional_same next, if_true]
  rfl

/-- The grammar of expressions reads every phrase as a literal. -/
theorem isRead_literal (x : Phrase f) (fuel : 2 * x.levels ≤ n)
    (free : s.depth + x.levels ≤ depthLimit) (outside : s.context.isGenerator = false) :
    x.IsRead (literalSteps n) s true := by
  -- The operand of a target lies four goals and two levels below.
  have below {x : Phrase .target} {n : Nat} {s : State} (room : 2 * x.levels + 4 ≤ n)
      (free : s.depth + (x.levels + 2) ≤ depthLimit)
      (outside : s.context.isGenerator = false)
      (ih : ∀ {n : Nat} {s : State}, 2 * x.levels ≤ n → s.depth + x.levels ≤ depthLimit →
        s.context.isGenerator = false → x.IsRead (literalSteps n) s true) :
      Reads (parseUpTo n .assignment) s true (plain x) := by
    obtain ⟨n, rfl⟩ := Nat.exists_eq_add_of_le' (Nat.le_of_add_left_le room)
    exact reads_plain (by omega) outside
      (ih (s := { s with depth := s.depth + 2 }) (by omega) (by simp only; omega) outside)
  induction x generalizing n s with
  | name w => exact fun _ _ _ _ follows _ _ _ => run_primary_word follows
  | array opening es closing ih => exact reads_arrayLiteral (ih fuel free outside) opening closing
  | object opening ps closing ih => exact reads_objectLiteral (ih fuel free outside) opening closing
  | plain x ih => exact below fuel free outside ih
  | defaulted x eq d ih =>
    rw [levels] at fuel free
    obtain ⟨n, rfl⟩ : ∃ m, n = m + 4 := Nat.exists_eq_add_of_le' (by omega)
    exact reads_defaulted (by omega) (by omega) outside
      (ih (s := { s with depth := s.depth + 2 }) (by omega) (by simp only; omega) outside) eq d
  | item x ih => exact reads_item (ih fuel free outside)
  | rest dots x ih => exact reads_spread (below fuel free outside ih) dots
  | noElements => exact readsElements_none
  | hole comma es ih => exact readsElements_hole (ih fuel free outside)
  | lastElement e ih => exact readsElements_last (ih fuel free outside)
  | moreElements e comma es ihe ih =>
    rw [levels] at fuel free
    exact readsElements_more (ihe (by omega) (by omega) outside) (ih (by omega) (by omega) outside)
  | shorthand w => exact reads_shorthand (reads_word w)
  | shorthandDefaulted w eq d =>
    exact reads_shorthandDefaulted (reads_word w) eq d fun _ _ _ _ follows ends noEq =>
      run_assignment_word fuel free outside follows ends noEq
  | named key colon v ih => exact reads_keyed (ih fuel free outside) key colon
  | computed opening key closing colon v ih =>
    rw [levels] at fuel free
    exact reads_computedKey (by omega) (by omega) outside (ih (by omega) (by omega) outside)
      opening key closing colon
  | restProperty dots x ih => exact reads_spreadProperty (below fuel free outside ih) dots
  | noProperties => exact readsMembers_none
  | lastProperty p ih => exact readsMembers_last (ih fuel free outside)
  | moreProperties p comma ps ihp ih =>
    rw [levels] at fuel free
    exact readsMembers_more (ihp (by omega) (by omega) outside) (ih (by omega) (by omega) outside)

end LoopCapture.Grammar.Phrase
