import LoopCapture.Proofs.Grammar.Destructuring.Words
import LoopCapture.Proofs.Grammar.Operators.Writing
import LoopCapture.Proofs.Grammar.Progress

/-!
# Climbing along operators

A name among operators is one operand: no member, no call and no postfix operator goes on with it. A
less-than sign is tried as the start of type arguments, which come to nothing since no parenthesis
follows. So a chain of operators is read operator by operator, and grows as operations grow.
-/

namespace LoopCapture.Grammar
open Text (Offset byteSize)
open Token (Cursor EndsName Gap Kind Punctuator Scanner Shows Word)
open Syntax (Child Node NodeId NodeTable Shape)

def PlainName.word (x : PlainName) (gap : Gap) : Word := ⟨gap, x.name⟩

/-- The tokens that may follow an operand: the end of the text and what operators are read as. -/
def Operator.followers : List Kind := .endOfFile :: kinds.map signOf

theorem Operator.sign_mem_followers (o : Operator) : o.sign ∈ followers :=
  List.mem_cons_of_mem _ (List.mem_map_of_mem o.kind_mem_kinds)

theorem Operator.shape_eq (o : Operator) (left right : Child) :
    (if isLogical o.kind = true then Shape.logical o.kind left right
      else .binary o.kind left right) = o.shape left right := by
  have logical : isLogical o.kind = true ↔ o.kind = .punctuator .barBar ∨
      o.kind = .punctuator .ampAmp ∨ o.kind = .punctuator .questionQuestion := by
    unfold isLogical
    split <;> simp_all
  simp only [Operator.shape, logical]

namespace Operands

theorem exists_shows (operands : Operands) (offset : Offset) :
    ∃ k v i d, Shows ⟨offset, operands.text⟩ k v i d ∧ k ∈ Operator.followers ∧
      i ≤ offset + 1 := by
  cases operands with
  | nil => exact ⟨_, _, _, _, Token.shows_end offset, List.mem_cons_self, Nat.le_succ offset⟩
  | cons next operands =>
    obtain ⟨o, x⟩ := next
    obtain ⟨value, after, shows⟩ := (showsOperator o (x.text ++ text operands) offset).shows
    rw [text_cons]
    exact ⟨_, _, _, _, shows, o.sign_mem_followers, Nat.le_refl _⟩

theorem endsName (operands : Operands) : EndsName operands.text := by
  cases operands with
  | nil => simp [EndsName]
  | cons next operands =>
    rw [text_cons]
    rintro _ ⟨⟩
    decide

end Operands

namespace Parse

variable {α β : Type} {s s' : State}

theorem Transacts.next {p : Parse α} {next : α → Parse β} {a : α} (h : (p >>= next).Transacts s)
    (run : p.run s = (a, s')) : (next a).Transacts s' := by
  have second : (next (p.run s).1).Transacts (p.run s).2 := h.2
  rwa [run] at second

theorem Transacts.iterate {start : α} {step : α → Parse (Round α)}
    (h : (iterate start step).Transacts s) :
    (repeatUpTo step (s.size - s.scanner.start.offset + 2) start).Transacts s :=
  h.2

theorem Transacts.round {step : α → Parse (Round α)} {n : Nat} {a : α}
    (h : (repeatUpTo step (n + 1) a).Transacts s) : (step a).Transacts s :=
  h.1

theorem Transacts.rounds {step : α → Parse (Round α)} {n : Nat} {a a' : α}
    (h : (repeatUpTo step (n + 1) a).Transacts s) (run : (step a).run s = (.again a', s')) :
    (repeatUpTo step n a').Transacts s' :=
  h.next run

end Parse

/-- A scanner that has read the token after a place of a text stands in the text. -/
theorem State.standsIn_facing {text : List Char} {s : State} {c : Cursor}
    (before : (Cursor.ofText text).Before c) (size : s.size = byteSize text) (t : NodeTable) :
    (s.facing c t).StandsIn text where
  stands := (Scanner.standsIn_scan (s := ⟨c, c, .unknown, "", false, #[]⟩) before).1
  holds := Scanner.Holds.scan (s := ⟨c, c, .unknown, "", false, #[]⟩) ⟨before, [], rfl, rfl, rfl⟩
  size_eq := size

theorem State.StandsIn.not_openParen {text : List Char} {s : State} (h : s.StandsIn text)
    (clear : '(' ∉ text) : s.scanner.kind ≠ .punctuator .openParen := by
  intro isParen
  obtain ⟨passed, rest, -⟩ := h.stands.start
  have written : s.scanner.start.rest = '(' :: s.scanner.stop.rest := h.stands.written _ isParen
  have whole : text = passed ++ '(' :: s.scanner.stop.rest := written ▸ rest
  exact clear (whole ▸ List.mem_append_right _ List.mem_cons_self)

namespace Parse

variable {parse : Parser} {text : List Char} {s : State}

theorem fst_run_attempt {α : Type} {p : Parse (Option α)} (h : (p.run s).1 = none) :
    ((attempt p).run s).1 = none := by
  have run : (attempt p).run s =
      if (p.run s).1.isSome ∧ (p.run s).2.errorCount = s.mark.errorCount then p.run s
      else (none, (p.run s).2.rewind s.mark) := rfl
  rw [run, h, if_neg (by simp)]

/-- Without a parenthesis there are no type arguments of a call. -/
theorem run_callTypeArguments (clear : '(' ∉ text) (stands : s.StandsIn text)
    (h : (callTypeArguments parse).Transacts s) :
    (callTypeArguments parse).run s = (none, s) := by
  have fails : ((callTypeArguments parse).run s).1 = none := by
    have other := (standsIn_run (typeArguments parse) stands).1.not_openParen clear
    have noParen :
        (((typeArguments parse).run s).2.scanner.kind == .punctuator .openParen) = false :=
      beq_eq_false_iff_ne.mpr other
    refine fst_run_attempt ?_
    simp only [run_bind, atMark, isAt, run_pure]
    change (if (((typeArguments parse).run s).2.scanner.kind == .punctuator .openParen) = true then
      some ((typeArguments parse).run s).1 else none) = none
    rw [noParen, if_neg Bool.false_ne_true]
  exact Prod.ext fails (h.2 fails)

variable {operands : Operands} {c d : Cursor} {k : Kind} {v : String} {i : Offset} {t : NodeTable}

theorem run_chain_follower (clear : '(' ∉ text) (stands : (s.facing c t).StandsIn text)
    (shows : Shows c k v i d) (follows : k ∈ Operator.followers) {start : Offset}
    {object : NodeId} (h : (chain parse start true object).Transacts (s.facing c t)) :
    (chain parse start true object).run (s.facing c t) = (some object, s.facing c t) := by
  have round : (chainRound parse start true object).Transacts (s.facing c t) :=
    Transacts.round (Transacts.iterate h)
  have tried := round.next (run_kind shows)
  rw [chain, run_labelled]
  refine run_iterate_done ?_
  simp only [chainRound, run_bind, run_kind shows]
  cases k with
  | punctuator mark =>
    cases mark with
    | less =>
      have run := run_callTypeArguments clear stands tried.1
      simp only [if_true, run_bind, run, run_pure]
    | _ => first | rfl | exact absurd follows (by decide)
  | template part => cases part <;> exact absurd follows (by decide)
  | _ => rfl

theorem run_primary_plain {w : Word} (plain : w.name.kind = .identifier) {after : Offset}
    {cs : List Char} (ends : EndsName cs) :
    (primary parse).run (s.facing ⟨after, w.text ++ cs⟩ t) = (some t.size,
      s.facing ⟨after + byteSize w.text, cs⟩ (t.push (Phrase.nameNode w after .identifier))) := by
  have first := Token.shows_word w ends after
  rw [plain] at first
  simp only [primary, run_labelled, run_bind, run_here first, run_kind first, run_both, run_pure]
  exact run_identifier_word ends

variable {w : Word} {after : Offset}

theorem run_leftHandSideBody_name (clear : '(' ∉ text) (plain : w.name.kind = .identifier)
    (before : (Cursor.ofText text).Before ⟨after + byteSize w.text, operands.text⟩)
    (size : s.size = byteSize text)
    (h : (leftHandSideBody parse).Transacts (s.facing ⟨after, w.text ++ operands.text⟩ t)) :
    (leftHandSideBody parse).run (s.facing ⟨after, w.text ++ operands.text⟩ t) = (some t.size,
      s.facing ⟨after + byteSize w.text, operands.text⟩
        (t.push (Phrase.nameNode w after .identifier))) := by
  have first := Token.shows_word w operands.endsName after
  rw [plain] at first
  obtain ⟨k, v, i, d, shows, follows, -⟩ := operands.exists_shows (after + byteSize w.text)
  have name : (primary parse).run (s.facing ⟨after, w.text ++ operands.text⟩ t) = _ :=
    run_primary_plain plain operands.endsName
  have linked := ((h.next (run_here first)).next (run_atWord first _)).next name
  have links := run_chain_follower clear (State.standsIn_facing before size _) shows follows linked
  have noNew : (Kind.identifier == .keyword .new_) = false := rfl
  simp only [leftHandSideBody, run_bind, run_here first, run_atWord first, noNew,
    Bool.false_eq_true, if_false, name, links]

theorem run_unary_name {n : Nat} (clear : '(' ∉ text) (plain : w.name.kind = .identifier)
    (before : (Cursor.ofText text).Before ⟨after + byteSize w.text, operands.text⟩)
    (size : s.size = byteSize text) (free : s.depth < depthLimit)
    (h : (parseUpTo (n + 2) .unary).Transacts (s.facing ⟨after, w.text ++ operands.text⟩ t)) :
    (parseUpTo (n + 2) .unary).run (s.facing ⟨after, w.text ++ operands.text⟩ t) = (some t.size,
      s.facing ⟨after + byteSize w.text, operands.text⟩
        (t.push (Phrase.nameNode w after .identifier))) := by
  have first := Token.shows_word w operands.endsName after
  rw [plain] at first
  obtain ⟨k, v, i, d, shows, follows, -⟩ := operands.exists_shows (after + byteSize w.text)
  have deeper : (unaryBody (parseUpTo (n + 1))).Transacts
    ({ s with depth := s.depth + 1 }.facing ⟨after, w.text ++ operands.text⟩ t) := h free
  have operand : (postfixBody (parseUpTo (n + 1))).Transacts
      ({ s with depth := s.depth + 1 }.facing ⟨after, w.text ++ operands.text⟩ t) :=
    (deeper.next (run_here first)).next (run_kind first)
  have name : (parseUpTo (n + 1) .leftHandSide).run
      ({ s with depth := s.depth + 1 }.facing ⟨after, w.text ++ operands.text⟩ t) = _ :=
    run_leftHandSideBody_name clear plain before size (operand.next (run_here first)).1
  have noPostfix : ∀ k ∈ Operator.followers, (k == .punctuator .plusPlus) = false ∧
    (k == .punctuator .minusMinus) = false := by decide
  refine run_guarded free ?_
  simp only [unaryBody, run_bind, run_here first, run_kind first, postfixBody, run_labelled, name,
    run_kind shows, noPostfix k follows]
  rfl

variable {above : Nat} {start : Offset} {left right : NodeId} {o : Operator} {s' : State}

/-- An operator that does not bind tighter than the level is left over. -/
theorem run_binaryRound_stop
    (loose : precedence s.context.withoutIn (s.reread .greater).scanner.kind ≤ above) :
    (binaryRound parse start above left).run s = (.done left, s.reread .greater) := by
  have look : (reread .greater).run s = ((), s.reread .greater) := rfl
  have is : kind.run (s.reread .greater) =
    ((s.reread .greater).scanner.kind, s.reread .greater) := rfl
  have same : state.run (s.reread .greater) = (s.reread .greater, s.reread .greater) := rfl
  have context : (s.reread .greater).context = s.context := rfl
  simp only [binaryRound, run_bind, look, is, same, context, loose, if_true, run_pure]

/-- An operator that binds tighter than the level takes its right operand. -/
theorem run_binaryRound_again (written : (s.reread .greater).scanner.kind = o.kind)
    (inIsOperator : s.context.withoutIn = false) (tighter : above < o.level)
    (h : (parse (.binary o.floor)).run (s.reread .greater).advance = (some right, s')) :
    (binaryRound parse start above left).run s =
      (do return .again (← finish start (o.shape left right)) : Parse (Round Child)).run s' := by
  have look : (reread .greater).run s = ((), s.reread .greater) := rfl
  have is : kind.run (s.reread .greater) = (o.kind, s.reread .greater) := Prod.ext written rfl
  have same : state.run (s.reread .greater) = (s.reread .greater, s.reread .greater) := rfl
  have context : (s.reread .greater).context.withoutIn = false := inIsOperator
  have moves : advance.run (s.reread .greater) = ((), (s.reread .greater).advance) := rfl
  have binds : ¬ precedence false o.kind ≤ above := Nat.not_le.mpr tighter
  have noCast : ¬ (o.kind = .keyword .as_ ∨ o.kind = .keyword .satisfies_) :=
    not_or.mpr o.noCast
  have floor : (if o.kind = .punctuator .starStar then precedence false o.kind - 1
    else precedence false o.kind) = o.floor := rfl
  simp only [binaryRound, run_bind, look, is, same, context, binds, if_false, noCast, moves, floor,
    h, Option.isNone_some, Bool.false_eq_true, o.shape_eq]

theorem Transacts.rightOperand (h : (binaryRound parse start above left).Transacts s)
    (written : (s.reread .greater).scanner.kind = o.kind)
    (inIsOperator : s.context.withoutIn = false) (tighter : above < o.level) :
    (parse (.binary o.floor)).Transacts (s.reread .greater).advance := by
  have look : (reread .greater).run s = ((), s.reread .greater) := rfl
  have is : kind.run (s.reread .greater) = (o.kind, s.reread .greater) := Prod.ext written rfl
  have same : state.run (s.reread .greater) = (s.reread .greater, s.reread .greater) := rfl
  have context : (s.reread .greater).context.withoutIn = false := inIsOperator
  have moves : advance.run (s.reread .greater) = ((), (s.reread .greater).advance) := rfl
  have binds : ¬ precedence false o.kind ≤ above := Nat.not_le.mpr tighter
  have noCast : ¬ (o.kind = .keyword .as_ ∨ o.kind = .keyword .satisfies_) :=
    not_or.mpr o.noCast
  have chosen := ((h.next look).next is).next same
  simp only [context, binds, if_false, noCast] at chosen
  exact (chosen.next moves).1

end Parse

/-- The surroundings in which a text without parentheses is read: `in` is an operator, and one may
go a level deeper. -/
structure State.ReadsOperators (text : List Char) (s : State) : Prop where
  clear : '(' ∉ text
  size_eq : s.size = byteSize text
  free : s.depth < depthLimit
  inIsOperator : s.context.withoutIn = false

/-- A step results in a node for an operation. Operands are left over, the first operator of which
was read again, and nodes are only added. -/
def Grows (text : List Char) (s : State) (t : NodeTable) (result : Child × State) (e : Operation)
    (rest : Operands) : Prop :=
  ∃ (offset : Offset) (t' : NodeTable) (node : NodeId),
    result = (some node, (s.facing ⟨offset, rest.text⟩ t').reread .greater) ∧ e.IsAt t' node ∧
    (Cursor.ofText text).Before ⟨offset, rest.text⟩ ∧ Keeps t t'

def LoopGrows (text : List Char) (s : State) (above : Nat) (left : Operation) (operands : Operands)
    (e : Operation) (rest : Operands) : Prop :=
  ∀ ⦃n m : Nat⦄ ⦃start offset : Offset⦄ ⦃t : NodeTable⦄ ⦃node : NodeId⦄ ⦃σ : State⦄,
    operands.length + 3 ≤ n → operands.length < m →
    (Cursor.ofText text).Before ⟨offset, operands.text⟩ →
    σ.reread .greater = (s.facing ⟨offset, operands.text⟩ t).reread .greater → left.IsAt t node →
    (repeatUpTo (binaryRound (parseUpTo n) start above) m (some node)).Transacts σ →
    Grows text s t ((repeatUpTo (binaryRound (parseUpTo n) start above) m (some node)).run σ) e rest

variable {text : List Char} {s : State} {above : Nat} {left right e : Operation} {o : Operator}
  {x : PlainName} {operands between rest : Operands}

namespace Parse

/-- Behind an operator there is its right operand. -/
theorem advance_reread {c d : Cursor} (h : ShowsOperator c o d) (t : NodeTable) :
    ((s.facing c t).reread .greater).advance = s.facing d t := by
  have scan : (Scanner.next c).rescanGreater.scan = Scanner.next d := by
    rw [Scanner.scan_eq_next h.quiet, h.stop]
  have stop : (Scanner.next c).rescanGreater.stop.offset = d.offset := by rw [h.stop]
  simp only [State.advance, State.reread, State.facing, Rereading.apply, scan, stop]

/-- Nothing is read again at the end of the text. -/
theorem reread_end (s : State) (offset : Offset) (t : NodeTable) :
    (s.facing ⟨offset, []⟩ t).reread .greater = s.facing ⟨offset, []⟩ t := by
  have same : (Scanner.next ⟨offset, []⟩).rescanGreater = Scanner.next ⟨offset, []⟩ := by
    rw [Scanner.rescanGreater, (Token.shows_end offset).kind, if_neg (by simp)]
  exact congrArg (fun scanner => { s.facing ⟨offset, []⟩ t with scanner }) same

/-- The level of the operator ahead, or none at the end of the text. -/
theorem precedence_reread_le (ends : ∀ next ∈ operands.head?, next.1.level ≤ above)
    (offset : Offset) (t : NodeTable) : precedence false
      ((s.facing ⟨offset, operands.text⟩ t).reread .greater).scanner.kind ≤ above := by
  cases operands with
  | nil =>
    change precedence false ((s.facing ⟨offset, []⟩ t).reread .greater).scanner.kind ≤ above
    rw [reread_end, show (s.facing ⟨offset, []⟩ t).scanner.kind = .endOfFile from
      (Token.shows_end offset).kind]
    exact Nat.zero_le above
  | cons next operands =>
    obtain ⟨o, x⟩ := next
    have shows := showsOperator o (x.text ++ Operands.text operands) offset
    change precedence false (Scanner.next ⟨offset, _⟩).rescanGreater.kind ≤ above
    rw [Operands.text_cons, shows.kind]
    exact ends (o, x) rfl

theorem loopGrows_stop (surroundings : s.ReadsOperators text)
    (ends : ∀ next ∈ operands.head?, next.1.level ≤ above) :
    LoopGrows text s above left operands left operands := by
  intro n m start offset t node σ fuel rounds before same isAt _
  obtain ⟨m, rfl⟩ := Nat.exists_eq_add_one.mpr (Nat.zero_lt_of_lt rounds)
  have context : σ.context.withoutIn = false :=
    (congrArg (·.context.withoutIn) same).trans surroundings.inIsOperator
  have loose : precedence σ.context.withoutIn (σ.reread .greater).scanner.kind ≤ above := by
    rw [same, context]
    exact precedence_reread_le ends offset t
  refine ⟨offset, t, node, ?_, isAt, before, .refl t⟩
  rw [run_repeatUpTo, run_binaryRound_stop loose, same]

/-- The bytes that are left allow for a round for each operator and one more. -/
theorem length_lt_rounds (size : s.size = byteSize text) {offset : Offset}
    (before : (Cursor.ofText text).Before ⟨offset, operands.text⟩) (t : NodeTable) :
    operands.length < (s.facing ⟨offset, operands.text⟩ t).size -
      (s.facing ⟨offset, operands.text⟩ t).scanner.start.offset + 2 := by
  obtain ⟨passed, whole, stop⟩ := before
  obtain ⟨k, v, i, d, shows, -, le⟩ := operands.exists_shows offset
  have start : (s.facing ⟨offset, operands.text⟩ t).scanner.start.offset = i := shows.start
  have bytes : byteSize text = byteSize passed + byteSize operands.text := by
    rw [← Text.byteSize_append]
    exact congrArg byteSize whole
  have passes : offset = byteSize passed := stop.trans (Nat.zero_add _)
  have count (a b c d : Nat) (le : a ≤ b + 1) (le' : c ≤ d) : c < b + d - a + 2 := by omega
  rw [start, show (s.facing ⟨offset, operands.text⟩ t).size = s.size from rfl, size, bytes]
  exact count i (byteSize passed) _ _ (passes ▸ le) operands.length_le_byteSize

/-- A name and the operators after it that bind tighter than the level. -/
theorem grows_binary {n : Nat} {gap : Gap} {after : Offset} {t : NodeTable}
    (surroundings : s.ReadsOperators text) (loop : LoopGrows text s above (.name x) operands e rest)
    (fuel : operands.length + 3 ≤ n)
    (before : (Cursor.ofText text).Before ⟨after, (x.word gap).text ++ operands.text⟩)
    (h : (parseUpTo (n + 1) (.binary above)).Transacts
      (s.facing ⟨after, (x.word gap).text ++ operands.text⟩ t)) :
    Grows text s t ((parseUpTo (n + 1) (.binary above)).run
      (s.facing ⟨after, (x.word gap).text ++ operands.text⟩ t)) e rest := by
  have first := Token.shows_word (x.word gap) operands.endsName after
  have behind : (Cursor.ofText text).Before ⟨after + byteSize (x.word gap).text, operands.text⟩ :=
    before.trans (.past (x.word gap).text rfl rfl)
  obtain ⟨n, rfl⟩ := Nat.exists_eq_add_of_le' (Nat.le_of_add_left_le fuel)
  have body : (binaryBody (parseUpTo (n + 3)) above).Transacts
    (s.facing ⟨after, (x.word gap).text ++ operands.text⟩ t) := h
  have operand := run_unary_name (n := n + 1) (w := x.word gap) surroundings.clear x.plain behind
    surroundings.size_eq surroundings.free (body.next (run_here first)).1
  have goesOn := Transacts.iterate ((body.next (run_here first)).next operand)
  have isAt : (Operation.name x).IsAt
      (t.push (Phrase.nameNode (x.word gap) after .identifier)) t.size := shape?_push_size t _
  have run : (parseUpTo (n + 4) (.binary above)).run
      (s.facing ⟨after, (x.word gap).text ++ operands.text⟩ t) =
    (binaryBody (parseUpTo (n + 3)) above).run
      (s.facing ⟨after, (x.word gap).text ++ operands.text⟩ t) := rfl
  obtain ⟨offset, t', node, loops, grown, ahead, keeps⟩ := loop fuel
    (length_lt_rounds surroundings.size_eq behind _) behind rfl isAt goesOn
  refine ⟨offset, t', node, ?_, grown, ahead, (Keeps.push t _).trans keeps⟩
  rw [run]
  simp only [binaryBody, run_bind, run_here first, operand]
  exact loops

/-- Reading a greater-than sign again once more changes nothing. -/
theorem reread_reread (s : State) :
    (s.reread .greater).reread .greater = s.reread .greater :=
  congrArg (fun scanner => { s with scanner }) (Scanner.rescanGreater_idem s.scanner)

/-- An operator and its right operand are one operand for the rest. -/
theorem loopGrows_step (surroundings : s.ReadsOperators text) (tighter : above < o.level)
    (inner : LoopGrows text s o.floor (.name x) operands right between)
    (outer : LoopGrows text s above (.apply o left right) between e rest)
    (shorter : between.length ≤ operands.length) :
    LoopGrows text s above left ((o, x) :: operands) e rest := by
  intro n m start offset t node σ fuel rounds before same isAt transacts
  obtain ⟨n, rfl⟩ := Nat.exists_eq_add_of_le' (Nat.le_of_add_left_le fuel)
  obtain ⟨m, rfl⟩ := Nat.exists_eq_add_one.mpr (Nat.zero_lt_of_lt rounds)
  rw [Operands.text_cons] at before same
  have context : σ.context.withoutIn = false :=
    (congrArg (·.context.withoutIn) same).trans surroundings.inIsOperator
  have shows := showsOperator o (x.text ++ Operands.text operands) offset
  have written : (σ.reread .greater).scanner.kind = o.kind := by
    rw [same]
    exact shows.kind
  have moved : (σ.reread .greater).advance = s.facing
      ⟨offset + 1 + byteSize o.text, (x.word .space).text ++ Operands.text operands⟩ t := by
    rw [same]
    exact advance_reread shows t
  have behind : (Cursor.ofText text).Before
      ⟨offset + 1 + byteSize o.text, (x.word .space).text ++ Operands.text operands⟩ :=
    before.trans ⟨' ' :: o.text, rfl, Nat.add_assoc offset 1 _⟩
  have operand := Transacts.rightOperand transacts.round written context tighter
  rw [moved] at operand
  obtain ⟨offset', t', node', runs, grown, ahead, keeps⟩ :=
    grows_binary surroundings inner (by simpa using fuel) behind operand
  have round : (binaryRound (parseUpTo (n + 3)) start above node).run σ = _ :=
    run_binaryRound_again written context tighter (by rw [moved]; exact runs)
  have made : (do return .again (← finish start (o.shape node node')) : Parse (Round Child)).run
      ((s.facing ⟨offset', between.text⟩ t').reread .greater) = (.again (some t'.size),
        (s.facing ⟨offset', between.text⟩
          (t'.push ⟨start, max offset' start, o.shape node node'⟩)).reread .greater) := rfl
  have applied : (Operation.apply o left right).IsAt
      (t'.push ⟨start, max offset' start, o.shape node node'⟩) t'.size :=
    ⟨node, node', shape?_push_size t' _, (keeps.trans (.push t' _)).isAt isAt,
      (Keeps.push t' _).isAt grown⟩
  have fuel' : between.length + 3 ≤ n + 3 := by
    have enough : operands.length + 1 + 3 ≤ n + 3 := fuel
    omega
  have rounds' : between.length < m := by
    have enough : operands.length + 1 < m + 1 := rounds
    omega
  obtain ⟨last, t'', whole, loops, all, rests, keeps'⟩ := outer fuel' rounds' ahead
    (reread_reread _) applied (transacts.rounds (round.trans made))
  refine ⟨last, t'', whole, ?_, all, rests, (keeps.trans (Keeps.push _ _)).trans keeps'⟩
  rw [run_repeatUpTo, round, made]
  exact loops

theorem loopGrows_of_climbs (surroundings : s.ReadsOperators text)
    (h : Climbs above left operands e rest) : LoopGrows text s above left operands e rest := by
  induction h with
  | stop ends => exact loopGrows_stop surroundings ends
  | step tighter first _ inner outer =>
    exact loopGrows_step surroundings tighter inner outer first.length_le

/-- A name and all operators after it, up to the end of the text. -/
theorem exists_run_binary (gap : Gap) {n : Nat} {after : Offset} {t : NodeTable}
    (surroundings : s.ReadsOperators text) (fuel : operands.length + 3 ≤ n)
    (before : (Cursor.ofText text).Before ⟨after, (x.word gap).text ++ operands.text⟩)
    (h : (parseUpTo (n + 1) (.binary 0)).Transacts
      (s.facing ⟨after, (x.word gap).text ++ operands.text⟩ t)) :
    ∃ (e : Operation) (t' : NodeTable) (node : NodeId),
      (parseUpTo (n + 1) (.binary 0)).run
          (s.facing ⟨after, (x.word gap).text ++ operands.text⟩ t) =
        (some node, s.facing ⟨byteSize text, []⟩ t') ∧
      e.IsAt t' node ∧ e.reading = .inl x :: operands.items ∧ e.IsGrouped := by
  obtain ⟨e, rest, climbs⟩ := Climbs.exists_climbs 0 (.name x) operands
  obtain rfl := climbs.rest_eq_nil
  obtain ⟨offset, t', node, runs, grown, ⟨passed, whole, stop⟩, -⟩ :=
    grows_binary surroundings (loopGrows_of_climbs surroundings climbs) fuel before h
  have ends : offset = byteSize text := by
    rw [show text = passed from whole.trans (List.append_nil passed)]
    exact stop.trans (Nat.zero_add _)
  refine ⟨e, t', node, ?_, grown, ?_, climbs.isGrouped trivial (by simp [Operation.operator?])⟩
  · rw [runs, ← ends]
    exact congrArg (Prod.mk _) (reread_end s offset t')
  · simpa [Operation.reading, Operands.items] using climbs.reading_append

end Parse
end LoopCapture.Grammar
