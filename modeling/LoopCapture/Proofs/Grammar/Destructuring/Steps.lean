import LoopCapture.Proofs.Grammar.Building.Tokens
import LoopCapture.Proofs.Token.Written

/-!
# Steps over tokens that are known

Where nothing was wrong so far, a state is told by the place where the last token ended, the nodes
and the surroundings. What follows the place then tells what a step over tokens does.
-/

namespace LoopCapture.Grammar
open Text (Offset)
open Token (Cursor Kind Keyword Punctuator Scanner Shows)
open Syntax (Child Node NodeId NodeTable Shape)

/-- The state with these nodes that has consumed everything up to the place, the token after it
being the current one. -/
def State.facing (s : State) (c : Cursor) (t : NodeTable) : State :=
  { s with scanner := .next c, lastEnd := c.offset, nodes := t }

namespace Parse

variable {α β : Type} {s : State} {c d : Cursor} {t t' : NodeTable} {k : Kind} {v : String}
  {i : Offset}

theorem run_bind (p : Parse α) (next : α → Parse β) (s : State) :
    (p >>= next).run s = (next (p.run s).1).run (p.run s).2 :=
  rfl

theorem run_pure (a : α) (s : State) : (pure a : Parse α).run s = (a, s) :=
  rfl

theorem run_labelled (label : Label α) (p : Parse α) (s : State) :
    (labelled label p).run s = p.run s :=
  rfl

theorem run_discard (p : Parse α) (s : State) : (discard p).run s = ((), (p.run s).2) :=
  rfl

theorem run_both (p q : Parse Bool) (s : State) : (p <&&> q).run s =
    if (p.run s).1 = true then q.run (p.run s).2 else (false, (p.run s).2) := by
  simp only [andM, run_bind]
  cases (p.run s).1 <;> rfl

theorem run_either (p q : Parse Bool) (s : State) : (p <||> q).run s =
    if (p.run s).1 = true then (true, (p.run s).2) else q.run (p.run s).2 := by
  simp only [orM, run_bind]
  cases (p.run s).1 <;> rfl

theorem run_ite {x : Prop} [Decidable x] (p q : Parse α) (s : State) :
    (if x then p else q).run s = if x then p.run s else q.run s := by
  split <;> rfl

theorem run_kind (shows : Shows c k v i d) : kind.run (s.facing c t) = (k, s.facing c t) :=
  Prod.ext shows.kind rfl

theorem run_here (shows : Shows c k v i d) : here.run (s.facing c t) = (i, s.facing c t) :=
  Prod.ext shows.start rfl

theorem run_value (shows : Shows c k v i d) : value.run (s.facing c t) = (v, s.facing c t) :=
  Prod.ext shows.value rfl

theorem run_tokenEnd (shows : Shows c k v i d) :
    tokenEnd.run (s.facing c t) = (d.offset, s.facing c t) :=
  Prod.ext (congrArg Cursor.offset shows.stop) rfl

theorem run_isAt (shows : Shows c k v i d) (k' : Kind) :
    (isAt k').run (s.facing c t) = (k == k', s.facing c t) := by
  rw [isAt, run_bind, run_kind shows, run_pure]

theorem run_atMark (shows : Shows c k v i d) (m : Punctuator) :
    (atMark m).run (s.facing c t) = (k == .punctuator m, s.facing c t) :=
  run_isAt shows _

theorem run_atWord (shows : Shows c k v i d) (w : Keyword) :
    (atWord w).run (s.facing c t) = (k == .keyword w, s.facing c t) :=
  run_isAt shows _

theorem run_atName (shows : Shows c k v i d) :
    atName.run (s.facing c t) = (k.isName, s.facing c t) := by
  rw [atName, run_bind, run_kind shows, run_pure]

theorem run_atAnyWord (shows : Shows c k v i d) :
    atAnyWord.run (s.facing c t) = (k.isWord, s.facing c t) := by
  rw [atAnyWord, run_bind, run_kind shows, run_pure]

theorem run_atClose (shows : Shows c k v i d) (close : Kind) :
    (atClose close).run (s.facing c t) = (k == close || k == .endOfFile, s.facing c t) := by
  simp only [atClose, run_bind, run_isAt shows, run_pure]

theorem run_advance (shows : Shows c k v i d) :
    advance.run (s.facing c t) = ((), s.facing d t) := by
  have scan : (Scanner.next c).scan = Scanner.next d := by
    rw [Scanner.scan_eq_next shows.quiet, shows.stop]
  have stop : (Scanner.next c).stop.offset = d.offset := by rw [shows.stop]
  simp only [Parse.run, State.advance, State.facing, scan, stop]

theorem run_optional_same (shows : Shows c k v i d) :
    (optional k).run (s.facing c t) = (true, s.facing d t) := by
  simp only [optional, run_bind, run_isAt shows, beq_self_eq_true, if_true, run_advance shows,
    run_pure]

theorem run_optional_other (shows : Shows c k v i d) {k' : Kind} (other : (k == k') = false) :
    (optional k').run (s.facing c t) = (false, s.facing c t) := by
  simp only [optional, run_bind, run_isAt shows, other, Bool.false_eq_true, if_false, run_pure]

theorem run_expect_same (shows : Shows c k v i d) :
    (expect k).run (s.facing c t) = (true, s.facing d t) := by
  simp only [expect, run_bind, run_isAt shows, beq_self_eq_true, if_true, run_advance shows,
    run_pure]

theorem run_addNode (start stop : Offset) (shape : Shape) :
    (addNode start stop shape).run (s.facing c t) =
      (t.size, s.facing c (t.push ⟨start, stop, shape⟩)) :=
  rfl

theorem run_finish {start : Offset} (le : start ≤ c.offset) (shape : Shape) :
    (finish start shape).run (s.facing c t) =
      (t.size, s.facing c (t.push ⟨start, c.offset, shape⟩)) := by
  have stop : max c.offset start = c.offset := Nat.max_eq_left le
  have run : (finish start shape).run (s.facing c t) =
    (t.size, s.facing c (t.push ⟨start, max c.offset start, shape⟩)) := rfl
  rw [run, stop]

theorem run_finish_at {start after : Offset} {cs : List Char} (le : start ≤ after)
    (shape : Shape) : (finish start shape).run (s.facing ⟨after, cs⟩ t) =
      (t.size, s.facing ⟨after, cs⟩ (t.push ⟨start, after, shape⟩)) :=
  run_finish le shape

theorem run_identifier (shows : Shows c k v i d) (named : k.isName = true)
    (le : i ≤ d.offset) : identifier.run (s.facing c t) =
      (some t.size, s.facing d (t.push ⟨i, d.offset, .identifier v⟩)) := by
  simp only [identifier, run_bind, run_atName shows, named, if_true, run_here shows,
    run_value shows, run_advance shows, run_finish le]
  rfl

theorem run_propertyName (shows : Shows c k v i d) (word : k.isWord = true)
    (le : i ≤ d.offset) : propertyName.run (s.facing c t) =
      (some t.size, s.facing d (t.push ⟨i, d.offset, .propertyName v⟩)) := by
  simp only [propertyName, run_bind, run_atAnyWord shows, word, if_true, run_here shows,
    run_value shows, run_advance shows, run_finish le]
  rfl

end Parse
end LoopCapture.Grammar
