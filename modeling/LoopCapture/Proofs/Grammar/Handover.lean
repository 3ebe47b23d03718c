import LoopCapture.Proofs.Grammar.Ownership
import Mathlib.Logic.Function.Basic

/-!
# Handing nodes over

The rules by which a construct is checked: it stores or hands over the nodes that it is given, each
once at most, and those that its parts hand to it. What it does with tokens does not matter.
-/

namespace LoopCapture.Grammar
open Syntax (Child NodeId Shape Within)
open Token (Kind Keyword Punctuator)

namespace Parse

section Carried

variable {α β : Type} [Carries α] [Carries β]

@[simp] theorem carried_node (node : NodeId) : carried node = [node] := rfl

@[simp] theorem carried_unit (u : Unit) : carried u = [] := rfl

@[simp] theorem carried_bool (b : Bool) : carried b = [] := rfl

@[simp] theorem carried_strings (l : List String) : carried l = [] := by
  simp [carried]

@[simp] theorem carried_string (s : String) : carried s = [] := rfl

@[simp] theorem carried_stringArray (l : Array String) : carried l = [] := by
  simp [carried]

@[simp] theorem carried_functionForm (form : Syntax.FunctionForm) : carried form = [] := rfl

@[simp] theorem carried_declarationWord (word : Syntax.DeclarationWord) : carried word = [] := rfl

@[simp] theorem carried_none : carried (none : Option α) = [] := rfl

@[simp] theorem carried_some (a : α) : carried (some a) = carried a := rfl

@[simp] theorem carried_pair (a : α) (b : β) : carried (a, b) = carried a ++ carried b := rfl

@[simp] theorem carried_nil : carried ([] : List α) = [] := rfl

@[simp] theorem carried_cons (a : α) (l : List α) : carried (a :: l) = carried a ++ carried l := rfl

@[simp] theorem carried_append (l l' : List α) : carried (l ++ l') = carried l ++ carried l' :=
  List.flatMap_append

@[simp] theorem carried_toList (l : Array α) : carried l.toList = carried l := rfl

@[simp] theorem carried_push (l : Array α) (a : α) :
    carried (l.push a) = carried l ++ carried a := by
  simp [carried]

@[simp] theorem carried_map_some (l : List NodeId) : carried (l.map some) = carried l := by
  induction l with
  | nil => rfl
  | cons node l ih => simp [ih]

theorem filterMap_eq_carried (l : List Child) : l.filterMap id = carried l := by
  induction l with
  | nil => rfl
  | cons child l ih =>
    cases child with
    | none => exact ih
    | some node => exact congrArg (node :: ·) ih

@[simp] theorem children_eq_carried (shape : Shape) : shape.children = carried shape.slots :=
  filterMap_eq_carried _

attribute [simp] Shape.slots Shape.signatureChildren Shape.callChildren

instance : Carries Syntax.Signature := ⟨fun s => carried (Shape.signatureChildren s)⟩

@[simp] theorem carried_signature (s : Syntax.Signature) :
    carried s = carried (Shape.signatureChildren s) := rfl

instance : Carries Syntax.Function := ⟨fun f => carried (Shape.function f).slots⟩

@[simp] theorem carried_function (f : Syntax.Function) :
    carried f = carried (Shape.function f).slots := rfl

instance : Carries (Round α) := ⟨fun | .again a | .done a => carried a⟩

@[simp] theorem carried_again (a : α) : carried (Round.again a) = carried a := rfl

@[simp] theorem carried_done (a : α) : carried (Round.done a) = carried a := rfl

end Carried

@[simp] theorem within_refl (nodes : List NodeId) : Within nodes nodes := .refl nodes

@[simp] theorem within_nil (nodes : List NodeId) : Within [] nodes := fun _ => by simp

/-- A step stores nodes that it is given or hands them over in its result. Of the nodes that are
held besides it spends none. -/
def Takes {α : Type} [Carries α] (given : List NodeId) (p : Parse α) : Prop :=
  ∀ held rest (post : α → List NodeId → Prop), Within (given ++ rest) held →
    (∀ a left, Within (carried a ++ rest) left → post a left) → p.Spends held post

/-- A step holds after it what it held before, whatever its result is. -/
class Quiet {α : Type} (p : Parse α) : Prop where
  spends_iff : ∀ {held : List NodeId} {post : α → List NodeId → Prop},
    p.Spends held post ↔ ∀ a, post a held

section Quiet

variable {α β : Type} {p : Parse α} {held : List NodeId} {post : α → List NodeId → Prop}

@[simp] theorem spends_pure (a : α) : (pure a : Parse α).Spends held post ↔ post a held := .rfl

@[simp] theorem spends_bind {next : α → Parse β} {post : β → List NodeId → Prop} :
    (p >>= next).Spends held post ↔ p.Spends held fun a left => (next a).Spends left post := .rfl

@[simp] theorem spends_ite {c : Prop} [Decidable c] {q : Parse α} :
    (if c then p else q).Spends held post ↔
      (c → p.Spends held post) ∧ (¬ c → q.Spends held post) := by
  split <;> simp [*]

attribute [simp] Quiet.spends_iff

theorem Quiet.of_unit {p : Parse Unit}
    (h : ∀ held (post : Unit → List NodeId → Prop), p.Spends held post ↔ post () held) :
    Quiet p :=
  ⟨(h _ _).trans ⟨fun holds _ => holds, fun holds => holds ()⟩⟩

theorem quiet_observe (look : State → α) : Quiet (.observe look) := ⟨.rfl⟩

theorem Quiet.map [Quiet p] {f : α → β} (onto : Function.Surjective f) :
    Quiet (p >>= fun a => pure (f a)) where
  spends_iff {held post} := by
    rw [onto.forall]
    exact Quiet.spends_iff (p := p)

instance : Quiet (pure () : Parse Unit) := .of_unit fun _ _ => .rfl

instance [Nonempty α] [Quiet p] {next : α → Parse β} [∀ a, Quiet (next a)] : Quiet (p >>= next) :=
  ⟨by simp⟩

instance {test : Parse Bool} [Quiet test] [Quiet p] (a : α) :
    Quiet (test >>= fun b => if b = true then p else pure a) :=
  ⟨by
    simp only [spends_bind, spends_ite, spends_pure, Quiet.spends_iff]
    grind⟩

instance {test : Parse Bool} [Quiet test] [Quiet p] (a : α) :
    Quiet (test >>= fun b => if b = true then pure a else p) :=
  ⟨by
    simp only [spends_bind, spends_ite, spends_pure, Quiet.spends_iff]
    grind⟩

instance {p : Parse Bool} [Quiet p] : Quiet (p >>= fun b => pure !b) :=
  .map Bool.involutive_not.surjective

instance {p q : Parse Bool} [Quiet p] [Quiet q] : Quiet (p <&&> q) :=
  ⟨by simp [andM, toBool]⟩

instance {p q : Parse Bool} [Quiet p] [Quiet q] : Quiet (p <||> q) :=
  ⟨by simp [orM, toBool, and_comm]⟩

instance [Nonempty α] [Quiet p] : Quiet (discard p) :=
  .of_unit fun held post => by
    change p.Spends held (fun _ left => post () left) ↔ _
    simp

instance [h : Quiet p] : Quiet (lookAhead p) := ⟨h.spends_iff⟩

instance : Quiet state := quiet_observe _

instance : Quiet kind := quiet_observe _

instance : Quiet here := quiet_observe _

instance : Quiet tokenEnd := quiet_observe _

instance : Quiet value := quiet_observe _

instance : Quiet afterLineBreak := quiet_observe _

instance (node : Child) : Quiet (shapeOf node) := quiet_observe _

instance : Quiet advance := .of_unit fun _ _ => .rfl

instance (again : Rereading) : Quiet (reread again) := .of_unit fun _ _ => .rfl

instance (fault : Diagnostic.Fault) : Quiet (reportHere fault) := .of_unit fun _ _ => .rfl

instance (k : Kind) : Quiet (isAt k) :=
  .map fun
    | false => ⟨if k = .endOfFile then .unknown else .endOfFile, by grind⟩
    | true => ⟨k, beq_self_eq_true k⟩

instance (m : Punctuator) : Quiet (atMark m) := inferInstanceAs (Quiet (isAt _))

instance (w : Keyword) : Quiet (atWord w) := inferInstanceAs (Quiet (isAt _))

instance : Quiet atName :=
  .map fun
    | false => ⟨.endOfFile, rfl⟩
    | true => ⟨.identifier, rfl⟩

instance : Quiet atAnyWord :=
  .map fun
    | false => ⟨.endOfFile, rfl⟩
    | true => ⟨.identifier, rfl⟩

instance (text : String) : Quiet (atNameText text) where
  spends_iff {held post} := by
    simp only [atNameText, spends_bind, spends_pure, Quiet.spends_iff, Bool.forall_bool,
      Bool.false_and, Bool.true_and, forall_const]
    exact and_congr_right fun no =>
      ⟨fun h => by simpa using h text, fun yes _ =>
        (Bool.forall_bool (p := fun b => post b held)).mpr ⟨no, yes⟩ _⟩

instance (k : Kind) : Quiet (optional k) := ⟨by simp [optional, and_comm]⟩

instance (k : Kind) : Quiet (expect k) := ⟨by simp [expect, and_comm]⟩

instance (m : Punctuator) : Quiet (optionalMark m) := inferInstanceAs (Quiet (optional _))

instance (w : Keyword) : Quiet (optionalWord w) := inferInstanceAs (Quiet (optional _))

instance (m : Punctuator) : Quiet (expectMark m) := inferInstanceAs (Quiet (expect _))

instance (w : Keyword) : Quiet (expectWord w) := inferInstanceAs (Quiet (expect _))

instance (close : Kind) : Quiet (atClose close) := ⟨by simp [atClose]⟩

instance : Quiet atStatementEnd where
  spends_iff {held post} := by
    simp only [atStatementEnd, spends_bind, spends_pure, Quiet.spends_iff, Bool.forall_bool,
      Bool.or_false, Bool.or_true]
    exact ⟨fun h => h .identifier, fun h k =>
      ⟨(Bool.forall_bool (p := fun b => post b held)).mpr h _, h.2⟩⟩

instance : Quiet semicolon := by
  unfold semicolon
  infer_instance

instance (k : Kind) : Quiet (nextIs k) := by
  unfold nextIs
  infer_instance

instance (m : Punctuator) : Quiet (nextIsMark m) := inferInstanceAs (Quiet (nextIs _))

instance {test : Parse Bool} [Quiet test] : Quiet (nextOnSameLine test) := by
  unfold nextOnSameLine
  infer_instance

end Quiet

section Rules

variable {α β γ : Type} [Carries α] [Carries β] {given more rest : List NodeId}

theorem Takes.weaken {p : Parse α} (h : Takes given p) (within : Within given more) :
    Takes more p :=
  fun held rest post fits => h held rest post ((within.append_right rest).trans fits)

/-- A step takes what it needs, and the next one takes the others and what the step hands over. -/
theorem Takes.bindWith {p : Parse α} {next : α → Parse β} (h : Takes given p)
    (rest : List NodeId) (fits : Within (given ++ rest) more)
    (h' : ∀ a, Takes (rest ++ carried a) (next a)) :
    Takes more (p >>= next) := by
  intro held others post held_fits holds
  refine h held (rest ++ others) _ ?_ fun a left after => h' a left others post ?_ holds
  · rw [← List.append_assoc]
    exact (fits.append_right others).trans held_fits
  · refine .trans ?_ after
    intro id
    simp only [List.count_append]
    omega

theorem Takes.bind {p : Parse α} {next : α → Parse β} (h : Takes [] p)
    (h' : ∀ a, Takes (given ++ carried a) (next a)) : Takes given (p >>= next) :=
  h.bindWith given (.refl given) h'

theorem Takes.bindOption {p : Parse (Option α)} {next : Option α → Parse β} (h : Takes [] p)
    (missing : Takes given (next none)) (h' : ∀ a, Takes (given ++ carried a) (next (some a))) :
    Takes given (p >>= next) := by
  refine h.bind fun a => ?_
  cases a with
  | none => simpa using missing
  | some a => exact h' a

theorem Quiet.takes {p : Parse α} [h : Quiet p] (empty : ∀ a : α, carried a = []) : Takes [] p := by
  intro held rest post fits holds
  exact h.spends_iff.mpr fun a => holds a held (by simpa [empty a] using fits)

@[simp] theorem takes_bind_of_quiet {p : Parse γ} [h : Quiet p] {next : γ → Parse β} :
    Takes given (p >>= next) ↔ ∀ a, Takes given (next a) := by
  constructor
  · intro takes a held others post fits holds
    exact h.spends_iff.mp (takes held others post fits holds) a
  · intro takes held others post fits holds
    exact h.spends_iff.mpr fun a => takes a held others post fits holds

@[simp] theorem takes_test {p : Parse Bool} [Quiet p] : Takes given p := by
  refine Takes.weaken (Quiet.takes fun _ => rfl) (within_nil given)

theorem Takes.skip {p : Parse γ} [Quiet p] {next : γ → Parse β} (h : ∀ a, Takes given (next a)) :
    Takes given (p >>= next) :=
  takes_bind_of_quiet.mpr h

theorem Takes.skipWhen {c : Prop} [Decidable c] {p : Parse γ} [Quiet p] {q : Parse β}
    (h : Takes given q) : Takes given (if c then p >>= fun _ => q else q) := by
  split
  · exact .skip fun _ => h
  · exact h

theorem Takes.skipUnless {c : Prop} [Decidable c] {p : Parse γ} [Quiet p] {q : Parse β}
    (h : Takes given q) : Takes given (if c then q else p >>= fun _ => q) := by
  split
  · exact h
  · exact .skip fun _ => h

theorem Takes.ite {c : Prop} [Decidable c] {p q : Parse β} (h : Takes given p)
    (h' : Takes given q) : Takes given (if c then p else q) := by
  split
  · exact h
  · exact h'

theorem Takes.bindIf {test : Parse Bool} [Quiet test] {p q : Parse α} {next : α → Parse β}
    (h : Takes [] p) (h' : Takes [] q) (after : ∀ a, Takes (given ++ carried a) (next a)) :
    Takes given (test >>= fun b => if b = true then p >>= next else q >>= next) := by
  refine .skip fun b => ?_
  cases b with
  | false => exact h'.bind after
  | true => exact h.bind after

@[simp] theorem takes_pure (a : α) :
    Takes given (pure a : Parse α) ↔ Within (carried a) given := by
  constructor
  · intro takes
    have result : Within (carried a ++ []) given :=
      takes given [] (fun b left => Within (carried b ++ []) left) (by simp)
        fun _ _ after => after
    simpa using result
  · intro within held rest post fits holds
    exact holds a held ((within.append_right rest).trans fits)

@[simp] theorem takes_pure_bind (a : γ) {next : γ → Parse β} :
    Takes given (pure a >>= next) ↔ Takes given (next a) := .rfl

@[simp] theorem takes_bind_bind {δ : Type} {p : Parse δ} {next : δ → Parse γ} {last : γ → Parse β} :
    Takes given ((p >>= next) >>= last) ↔ Takes given (p >>= fun a => next a >>= last) := .rfl

theorem Takes.within {change : Context → Context} {p : Parse α} (h : Takes given p) :
    Takes given (within change p) :=
  h

@[simp] theorem takes_ite {c : Prop} [Decidable c] {p q : Parse α} :
    Takes given (if c then p else q) ↔ (c → Takes given p) ∧ (¬ c → Takes given q) := by
  split <;> simp [*]

@[simp] theorem takes_addNode (start stop : Text.Offset) (shape : Shape) :
    Takes given (addNode start stop shape) ↔ Within shape.children given := by
  constructor
  · intro takes
    obtain ⟨left, fits, -⟩ := takes given [] (fun _ _ => True) (by simp) (fun _ _ _ => trivial)
    exact fits.left
  · intro within held rest post fits holds
    exact ⟨rest, (within.append_right rest).trans fits, fun node => holds node _ (.refl _)⟩

@[simp] theorem takes_finish (start : Text.Offset) (shape : Shape) :
    Takes given (finish start shape) ↔ Within shape.children given := by
  simp [finish]

theorem takes_addNode_bind {start stop : Text.Offset} {shape : Shape} {next : NodeId → Parse β}
    (rest : List NodeId) (fits : Within (shape.children ++ rest) given)
    (h : ∀ node, Takes (rest ++ [node]) (next node)) :
    Takes given (addNode start stop shape >>= next) :=
  ((takes_addNode start stop shape).mpr (.refl _)).bindWith rest fits h

theorem takes_finish_bind {start : Text.Offset} {shape : Shape} {next : NodeId → Parse β}
    (rest : List NodeId) (fits : Within (shape.children ++ rest) given)
    (h : ∀ node, Takes (rest ++ [node]) (next node)) :
    Takes given (finish start shape >>= next) :=
  ((takes_finish start shape).mpr (.refl _)).bindWith rest fits h

theorem takes_finish_bind_pure {start : Text.Offset} {shape : Shape} {make : NodeId → β}
    (same : ∀ node, carried (make node) = [node]) :
    Takes given (finish start shape >>= fun node => pure (make node)) ↔
      Within shape.children given := by
  constructor
  · intro takes
    obtain ⟨left, fits, -⟩ := takes given [] (fun _ _ => True) (by simp)
      (fun _ _ _ => trivial) default
    exact fits.left
  · intro within
    refine takes_finish_bind [] (by simpa using within) fun node => ?_
    simp [same]

@[simp] theorem takes_finish_some (start : Text.Offset) (shape : Shape) :
    Takes given (finish start shape >>= fun node => pure (some node)) ↔
      Within shape.children given :=
  takes_finish_bind_pure fun _ => rfl

@[simp] theorem takes_finish_again (start : Text.Offset) (shape : Shape) :
    Takes given (finish start shape >>= fun node => pure (Round.again (some node))) ↔
      Within shape.children given :=
  takes_finish_bind_pure fun _ => rfl

theorem Takes.and {p q : Parse Bool} (h : Takes [] p) (h' : Takes given q) :
    Takes given (p <&&> q) :=
  h.bind fun
    | false => by simp [toBool]
    | true => by simpa [toBool] using h'

theorem Takes.lookAhead {p : Parse α} (h : Takes given p) : Takes given (lookAhead p) := h

theorem Takes.map_some {p : Parse α} (h : Takes given p) : Takes given (some <$> p) :=
  fun held rest _ fits holds => h held rest _ fits fun a left => holds (some a) left

theorem takes_nextOnSameLine {test : Parse Bool} (h : Takes given test) :
    Takes given (nextOnSameLine test) :=
  .lookAhead (.skip fun _ => .skip fun _ => .ite (by simp) h)

theorem takes_reshape (node : NodeId) {shape : Shape} (leaf : shape.slots = []) :
    Takes given (reshape node shape) :=
  fun held _ _ fits holds => ⟨leaf, holds () held (by simpa using fits.right)⟩

theorem takes_guarded {p : Parse Child} (h : Takes given p) : Takes given (guarded p) :=
  fun held rest post fits holds =>
    ⟨holds none held (by simpa using fits.right), h held rest post fits holds⟩

theorem takes_attempt {p : Parse (Option α)} (h : Takes given p) : Takes given (attempt p) :=
  fun held rest post fits holds =>
    ⟨holds none held (by simpa using fits.right), h held rest post fits holds⟩

@[simp] theorem takes_labelled {label : Label α} {p : Parse α} :
    Takes given (labelled label p) ↔ Takes given p := .rfl

theorem takes_discard {p : Parse α} (h : Takes given p) : Takes given (discard p) :=
  fun held rest _ fits holds =>
    h held rest _ fits fun _ left after => holds () left (by simpa using after.right)

theorem takes_repeatUpTo {step : α → Parse (Round α)}
    (h : ∀ a, Takes (carried a) (step a)) (n : Nat)
    (a : α) : Takes (carried a) (repeatUpTo step n a) := by
  induction n generalizing a with
  | zero => simp [repeatUpTo, Within.refl]
  | succ n ih =>
    refine (takes_labelled.mpr (h a)).bindWith [] (by simp) fun round => ?_
    cases round with
    | again a => exact ih a
    | done a => simp [Within.refl]

theorem takes_forM {step : γ → Parse PUnit} (h : ∀ a, Takes [] (step a)) (l : List γ) :
    Takes [] (l.forM step) := by
  induction l with
  | nil => simp
  | cons a l ih => exact (h a).bind fun _ => by simpa using ih

theorem takes_iterate {step : α → Parse (Round α)} (h : ∀ a, Takes (carried a) (step a)) (a : α) :
    Takes (carried a) (iterate a step) := by
  simpa [iterate] using fun _ => takes_repeatUpTo h _ a

theorem takes_commaList {close : Kind} {item : Parse Child} (h : Takes [] item) :
    Takes [] (commaList close item) := by
  refine (takes_iterate (fun items => ?_) #[]).bind fun items => by simp
  simp
  exact h.bindOption (by simp) fun node => by simp

theorem takes_separated {separator : Kind} {item : Parse Child} (h : Takes [] item) :
    Takes [] (separated separator item) := by
  refine (takes_iterate (fun items => ?_) #[]).bind fun items => by simp
  exact h.bindOption (by simp) fun node => by simp

end Rules
end Parse
end LoopCapture.Grammar
