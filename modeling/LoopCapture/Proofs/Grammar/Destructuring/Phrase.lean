import LoopCapture.Grammar.State
import LoopCapture.Proofs.Token.Written

/-!
# Destructuring patterns as they are written

A phrase is a part of a destructuring pattern with the gaps between its tokens, so its text and the
nodes it makes can be told. The nodes come in the order in which either grammar makes them. Read as
an expression a pattern is a literal: it differs from the pattern in the shapes of some nodes alone,
and these are what becoming a pattern changes.
-/

namespace LoopCapture.Syntax

/-- A node that stands so many bytes later. -/
def Node.moved (n : Node) (bytes : Text.Offset) : Node := ⟨n.start + bytes, n.stop + bytes, n.shape⟩

end LoopCapture.Syntax

namespace LoopCapture.Grammar
open Text (Offset byteSize)
open Token (Gap Kind Word)
open Syntax (Child Node NodeId NodeTable Shape)

/-- What a phrase is a phrase of. -/
inductive Phrase.Form where
  /-- What is assigned to: a name or a pattern. -/
  | target
  | value
  | element
  | elements
  | property
  | properties

/-- A part of a pattern. Each gap stands before the token it is named for. A rest element is taken
in any place, not only in the last one. -/
inductive Phrase : Phrase.Form → Type where
  | name (name : Word) : Phrase .target
  | array (opening : Gap) (elements : Phrase .elements) (closing : Gap) : Phrase .target
  | object (opening : Gap) (properties : Phrase .properties) (closing : Gap) : Phrase .target
  | plain (target : Phrase .target) : Phrase .value
  | defaulted (target : Phrase .target) (eq : Gap) (default : Word) : Phrase .value
  | item (value : Phrase .value) : Phrase .element
  | rest (dots : Gap) (target : Phrase .target) : Phrase .element
  | noElements : Phrase .elements
  | hole (comma : Gap) (elements : Phrase .elements) : Phrase .elements
  | lastElement (element : Phrase .element) : Phrase .elements
  | moreElements (element : Phrase .element) (comma : Gap) (elements : Phrase .elements) :
    Phrase .elements
  | shorthand (name : Word) : Phrase .property
  | shorthandDefaulted (name : Word) (eq : Gap) (default : Word) : Phrase .property
  | named (key : Word) (colon : Gap) (value : Phrase .value) : Phrase .property
  | computed (opening : Gap) (key : Word) (closing colon : Gap) (value : Phrase .value) :
    Phrase .property
  | restProperty (dots : Gap) (target : Phrase .target) : Phrase .property
  | noProperties : Phrase .properties
  | lastProperty (property : Phrase .property) : Phrase .properties
  | moreProperties (property : Phrase .property) (comma : Gap) (properties : Phrase .properties) :
    Phrase .properties

namespace Phrase

variable {f : Form}

def text : {f : Form} → Phrase f → List Char
  | _, name n => n.text
  | _, array opening es closing =>
    opening.mark .openBracket ++ (es.text ++ closing.mark .closeBracket)
  | _, object opening ps closing => opening.mark .openBrace ++ (ps.text ++ closing.mark .closeBrace)
  | _, plain t => t.text
  | _, defaulted t eq d => t.text ++ (eq.mark .eq ++ d.text)
  | _, item v => v.text
  | _, rest dots t => dots.mark .ellipsis ++ t.text
  | _, noElements => []
  | _, hole comma es => comma.mark .comma ++ es.text
  | _, lastElement e => e.text
  | _, moreElements e comma es => e.text ++ (comma.mark .comma ++ es.text)
  | _, shorthand n => n.text
  | _, shorthandDefaulted n eq d => n.text ++ (eq.mark .eq ++ d.text)
  | _, named key colon v => key.text ++ (colon.mark .colon ++ v.text)
  | _, computed opening key closing colon v =>
    opening.mark .openBracket ++
      (key.text ++ (closing.mark .closeBracket ++ (colon.mark .colon ++ v.text)))
  | _, restProperty dots t => dots.mark .ellipsis ++ t.text
  | _, noProperties => []
  | _, lastProperty p => p.text
  | _, moreProperties p comma ps => p.text ++ (comma.mark .comma ++ ps.text)

/-- The gap before the first token, of a phrase that has one. -/
def lead : {f : Form} → Phrase f → List Char
  | _, name n | _, shorthand n | _, shorthandDefaulted n _ _ | _, named n _ _ => n.gap.text
  | _, array gap _ _ | _, object gap _ _ | _, rest gap _ | _, hole gap _
  | _, computed gap _ _ _ _ | _, restProperty gap _ => gap.text
  | _, plain t | _, defaulted t _ _ => t.lead
  | _, item v => v.lead
  | _, lastElement e | _, moreElements e _ _ => e.lead
  | _, lastProperty p | _, moreProperties p _ _ => p.lead
  | _, noElements | _, noProperties => []

/-- How many levels deeper than a phrase its parts lie, when it is read as an expression: each
operand is an assignment expression and a unary one. -/
def levels : {f : Form} → Phrase f → Nat
  | _, name _ | _, noElements | _, shorthand _ | _, noProperties => 0
  | _, array _ es _ => es.levels
  | _, object _ ps _ => ps.levels
  | _, plain t => t.levels + 2
  | _, defaulted t _ _ => max (t.levels + 2) 3
  | _, item v => v.levels
  | _, rest _ t | _, restProperty _ t => t.levels + 2
  | _, hole _ es => es.levels
  | _, lastElement e => e.levels
  | _, moreElements e _ es => max e.levels es.levels
  | _, shorthandDefaulted _ _ _ => 2
  | _, named _ _ v => v.levels
  | _, computed _ _ _ _ v => max 2 v.levels
  | _, lastProperty p => p.levels
  | _, moreProperties p _ ps => max p.levels ps.levels

/-- The kind of the first token, of a phrase that has one. -/
def firstKind : {f : Form} → Phrase f → Kind
  | _, name n | _, shorthand n | _, shorthandDefaulted n _ _ | _, named n _ _ => n.name.kind
  | _, array _ _ _ | _, computed _ _ _ _ _ => .punctuator .openBracket
  | _, object _ _ _ => .punctuator .openBrace
  | _, rest _ _ | _, restProperty _ _ => .punctuator .ellipsis
  | _, hole _ _ => .punctuator .comma
  | _, plain t | _, defaulted t _ _ => t.firstKind
  | _, item v => v.firstKind
  | _, lastElement e | _, moreElements e _ _ => e.firstKind
  | _, lastProperty p | _, moreProperties p _ _ => p.firstKind
  | _, noElements | _, noProperties => .unknown

/-- How many rounds a loop takes over elements or properties: the last one finds the end. -/
def rounds : {f : Form} → Phrase f → Nat
  | _, hole _ es | _, moreElements _ _ es => es.rounds + 1
  | _, moreProperties _ _ ps => ps.rounds + 1
  | _, lastElement _ | _, lastProperty _ => 2
  | _, _ => 1

theorem byteSize_lead_le (p : Phrase f) : byteSize p.lead ≤ byteSize p.text := by
  induction p <;>
    simp only [lead, text, Token.Gap.mark, Word.text, Text.byteSize_append] at * <;> omega

theorem byteSize_gap_lt (gap : Gap) (mark : Token.Punctuator) :
    byteSize gap.text < byteSize (gap.mark mark) := by
  rw [Gap.mark, Text.byteSize_append, Token.Punctuator.byteSize_spelling]
  exact Nat.lt_add_of_pos_right mark.length_spelling_pos

theorem rounds_le (p : Phrase f) : p.rounds + byteSize p.lead ≤ byteSize p.text + 2 := by
  induction p with
  | hole comma es ih =>
    have comma := byteSize_gap_lt comma .comma
    simp only [rounds, lead, text, Text.byteSize_append]
    omega
  | moreElements e comma es _ ih =>
    have lead := e.byteSize_lead_le
    have comma := byteSize_gap_lt comma .comma
    simp only [rounds, Phrase.lead, text, Text.byteSize_append]
    omega
  | moreProperties p comma ps _ ih =>
    have lead := p.byteSize_lead_le
    have comma := byteSize_gap_lt comma .comma
    simp only [rounds, Phrase.lead, text, Text.byteSize_append]
    omega
  | lastElement e | lastProperty e =>
    have lead := e.byteSize_lead_le
    simp only [rounds, Phrase.lead, text]
    omega
  | _ =>
    refine Nat.le_trans (Nat.add_le_add_left (byteSize_lead_le _) _) ?_
    simp only [rounds]
    omega

def count : {f : Form} → Phrase f → Nat
  | _, name _ => 1
  | _, array _ es _ => es.count + 1
  | _, object _ ps _ => ps.count + 1
  | _, plain t => t.count
  | _, defaulted t _ _ => t.count + 2
  | _, item v => v.count
  | _, rest _ t | _, restProperty _ t => t.count + 1
  | _, noElements | _, noProperties => 0
  | _, hole _ es => es.count
  | _, lastElement e => e.count
  | _, moreElements e _ es => e.count + es.count
  | _, shorthand _ => 3
  | _, shorthandDefaulted _ _ _ => 5
  | _, named _ _ v | _, computed _ _ _ _ v => v.count + 2
  | _, lastProperty p => p.count
  | _, moreProperties p _ ps => p.count + ps.count

/-- The node of a phrase, which is the last one it makes, given the place of the first one. -/
def root (p : Phrase f) (first : NodeId) : NodeId := first + p.count - 1

def items : {f : Form} → Phrase f → NodeId → List Child
  | _, hole _ es, first => none :: es.items first
  | _, lastElement e, first => [some (e.root first)]
  | _, moreElements e _ es, first => some (e.root first) :: es.items (first + e.count)
  | _, _, _ => []

def members : {f : Form} → Phrase f → NodeId → List NodeId
  | _, lastProperty p, first => [p.root first]
  | _, moreProperties p _ ps, first => p.root first :: ps.members (first + p.count)
  | _, _, _ => []

def nameNode (w : Word) (after : Offset) (shape : String → Shape) : Node :=
  ⟨after + byteSize w.gap.text, after + byteSize w.text, shape w.name.value⟩

def node (p : Phrase f) (after : Offset) (shape : Shape) : Node :=
  ⟨after + byteSize p.lead, after + byteSize p.text, shape⟩

/-- The nodes of a phrase that is written after a place, given the place of the first one in its
table: as a literal or as a pattern. The target of a default is a pattern in either of them. -/
def nodes (literal : Bool) : {f : Form} → Phrase f → NodeId → Offset → NodeTable
  | _, name n, _, after => #[nameNode n after .identifier]
  | _, p@(array opening es _), first, after =>
    (es.nodes literal first (after + byteSize (opening.mark .openBracket))).push
      (p.node after (if literal then .array (es.items first) else .arrayPattern (es.items first)))
  | _, p@(object opening ps _), first, after =>
    (ps.nodes literal first (after + byteSize (opening.mark .openBrace))).push
      (p.node after
        (if literal then .object (ps.members first) else .objectPattern (ps.members first)))
  | _, plain t, first, after => t.nodes literal first after
  | _, p@(defaulted t eq d), first, after =>
    let shape := fun left right : Child =>
      if literal then .assignment (.punctuator .eq) left right else .assignmentPattern left right
    ((t.nodes false first after).push
      (nameNode d (after + byteSize t.text + byteSize (eq.mark .eq)) .identifier)).push
      (p.node after (shape (t.root first) (first + t.count : NodeId)))
  | _, item v, first, after => v.nodes literal first after
  | _, p@(rest dots t), first, after | _, p@(restProperty dots t), first, after =>
    (t.nodes literal first (after + byteSize (dots.mark .ellipsis))).push
      (p.node after
        (if literal then .spread (t.root first) else .restElement (t.root first)))
  | _, noElements, _, _ | _, noProperties, _, _ => #[]
  | _, hole comma es, first, after =>
    es.nodes literal first (after + byteSize (comma.mark .comma))
  | _, lastElement e, first, after => e.nodes literal first after
  | _, moreElements e comma es, first, after =>
    e.nodes literal first after ++
      es.nodes literal (first + e.count) (after + byteSize e.text + byteSize (comma.mark .comma))
  | _, p@(shorthand n), first, after =>
    #[nameNode n after .propertyName, nameNode n after .identifier,
      p.node after (.property ⟨first, (first + 1 : NodeId), .init, false, true, false⟩)]
  | _, p@(shorthandDefaulted n eq d), first, after =>
    #[nameNode n after .propertyName, nameNode n after .identifier,
      nameNode d (after + byteSize n.text + byteSize (eq.mark .eq)) .identifier,
      p.node after (.assignmentPattern (first + 1 : NodeId) (first + 2 : NodeId)),
      p.node after (.property ⟨first, (first + 3 : NodeId), .init, false, true, false⟩)]
  | _, p@(named key colon v), first, after =>
    (#[nameNode key after .propertyName] ++
      v.nodes literal (first + 1) (after + byteSize key.text + byteSize (colon.mark .colon))).push
      (p.node after (.property ⟨first, v.root (first + 1), .init, false, false, false⟩))
  | _, p@(computed opening key closing colon v), first, after =>
    (#[nameNode key (after + byteSize (opening.mark .openBracket)) .identifier] ++
      v.nodes literal (first + 1) (after + byteSize (opening.mark .openBracket) +
        byteSize key.text + byteSize (closing.mark .closeBracket) +
        byteSize (colon.mark .colon))).push
      (p.node after (.property ⟨first, v.root (first + 1), .init, true, false, false⟩))
  | _, lastProperty p, first, after => p.nodes literal first after
  | _, moreProperties p comma ps, first, after =>
    p.nodes literal first after ++
      ps.nodes literal (first + p.count) (after + byteSize p.text + byteSize (comma.mark .comma))

theorem size_nodes (literal : Bool) (p : Phrase f) (first : NodeId) (after : Offset) :
    (p.nodes literal first after).size = p.count := by
  induction p generalizing literal first after <;> simp [nodes, count, *] <;> omega

/-- What becomes a pattern of a phrase: its node, or each of its parts. -/
def targets : {f : Form} → Phrase f → NodeId → List NodeId
  | .elements, es, first => (es.items first).filterMap id
  | .properties, ps, first => ps.members first
  | .target, p, first | .value, p, first | .element, p, first | .property, p, first =>
    [p.root first]

/-- A node below a bound becomes a pattern. -/
def asPatternBelow (above : NodeId) (t : NodeTable) (target : NodeId) : NodeTable :=
  if target < above then t.asPattern target else t

/-- The last node of some becomes a pattern, and then its targets do, which are among the others. -/
theorem asPattern_push {before inner inner' post : NodeTable} {n : Node} {pattern : Shape}
    {targets : List NodeId} (is : n.shape.asPattern = (pattern, targets))
    (become : ∀ post, targets.foldl (asPatternBelow (before.size + inner.size))
      (before ++ inner ++ post) = before ++ inner' ++ post) :
    NodeTable.asPattern (before ++ inner.push n ++ post) (before.size + inner.size) =
      before ++ inner'.push { n with shape := pattern } ++ post := by
  have found : NodeTable.shape? (before ++ inner.push n ++ post) (before.size + inner.size) =
      some n.shape := by
    simp [NodeTable.shape?, Array.getElem?_append]
  have reshaped : NodeTable.reshape (before ++ inner.push n ++ post) (before.size + inner.size)
      pattern = before ++ inner ++ (#[{ n with shape := pattern }] ++ post) := by
    refine Array.ext_getElem? fun i => ?_
    simp only [NodeTable.reshape, Array.getElem?_modify, Array.getElem?_append,
      Array.getElem?_push]
    grind
  rw [NodeTable.asPattern, found]
  simp only [is, reshaped]
  have goesOn := become (#[{ n with shape := pattern }] ++ post)
  unfold asPatternBelow at goesOn
  rw [goesOn]
  simp

theorem foldl_asPatternBelow {root above : NodeId} {t t' : NodeTable} (below : root < above)
    (h : t.asPattern root = t') : [root].foldl (asPatternBelow above) t = t' := by
  rw [List.foldl_cons, List.foldl_nil, asPatternBelow, if_pos below, h]

/-- The last node of some becomes a pattern with the targets among the others. -/
theorem foldl_asPattern_push {before post : NodeTable} (inner inner' : NodeTable) {n : Node}
    {pattern : Shape}
    {targets : List NodeId} {root above : NodeId} (is : n.shape.asPattern = (pattern, targets))
    (last : root = before.size + inner.size) (below : root < above)
    (become : ∀ post, targets.foldl (asPatternBelow root) (before ++ inner ++ post) =
      before ++ inner' ++ post) :
    [root].foldl (asPatternBelow above) (before ++ inner.push n ++ post) =
      before ++ inner'.push { n with shape := pattern } ++ post := by
  subst last
  exact foldl_asPatternBelow below (asPattern_push is become)

/-- What becomes no other shape and has no targets stays as it is. -/
theorem foldl_asPattern_settled {before post : NodeTable} (inner : NodeTable) (n : Node)
    {root above : NodeId} (settled : n.shape.asPattern = (n.shape, []))
    (last : root = before.size + inner.size) (below : root < above) :
    [root].foldl (asPatternBelow above) (before ++ inner.push n ++ post) =
      before ++ inner.push n ++ post :=
  foldl_asPattern_push inner inner settled last below fun _ => rfl

/-- The value of a property becomes a pattern. Its key comes first and stays as it is. -/
theorem foldl_asPattern_keyed {before post : NodeTable} (inner inner' : NodeTable) {key n : Node}
    {value root above : NodeId} (is : n.shape.asPattern = (n.shape, [value]))
    (last : root = before.size + (inner.size + 1)) (below : root < above)
    (become : ∀ post, [value].foldl (asPatternBelow root) (before.push key ++ inner ++ post) =
      before.push key ++ inner' ++ post) :
    [root].foldl (asPatternBelow above) (before ++ (#[key] ++ inner).push n ++ post) =
      before ++ (#[key] ++ inner').push n ++ post := by
  refine foldl_asPattern_push _ _ is ?_ below fun post => ?_
  · rw [last, Array.size_append, Nat.add_comm inner.size]
    rfl
  · have after := become post
    simpa using after

theorem append_pair (before post : NodeTable) (m n : Node) :
    before ++ #[m, n] ++ post = before ++ #[].push m ++ (#[n] ++ post) :=
  Array.ext' (by simp)

theorem keyed_le {first count : Nat} : first + 1 + count ≤ first + (count + 2) - 1 := by
  omega

/-- One part after the other becomes a pattern. -/
theorem foldl_asPattern_append {before first first' second second' post : NodeTable}
    (targets : List NodeId) {targets' : List NodeId} {above : NodeId}
    (one : ∀ post, targets.foldl (asPatternBelow above) (before ++ first ++ post) =
      before ++ first' ++ post)
    (other : targets'.foldl (asPatternBelow above) (before ++ first' ++ second ++ post) =
      before ++ first' ++ second' ++ post) :
    (targets ++ targets').foldl (asPatternBelow above) (before ++ (first ++ second) ++ post) =
      before ++ (first' ++ second') ++ post := by
  have started := one (second ++ post)
  simp only [← Array.append_assoc] at started ⊢
  rw [List.foldl_append, started, other]

theorem root_lt (p : Phrase .target) (first : NodeId) : p.root first < first + p.count := by
  cases p <;> simp [root, count]

theorem foldl_asPattern_target (t : Phrase .target) (before post : NodeTable) (after : Offset)
    (above : NodeId) (fits : before.size + t.count ≤ above) :
    [t.root before.size].foldl (asPatternBelow above)
      (before ++ t.nodes false before.size after ++ post) =
      before ++ t.nodes false before.size after ++ post := by
  have below := Nat.lt_of_lt_of_le (t.root_lt before.size) fits
  cases t with
  | name n =>
    exact foldl_asPattern_settled #[] (nameNode n after .identifier) rfl rfl below
  | array opening es closing =>
    exact foldl_asPattern_settled _ _ rfl (by rw [size_nodes]; rfl) below
  | object opening ps closing =>
    exact foldl_asPattern_settled _ _ rfl (by rw [size_nodes]; rfl) below

/-- The literals of a phrase become patterns, and nothing else in the table changes. -/
theorem foldl_asPattern (p : Phrase f) (before post : NodeTable) (after : Offset) (above : NodeId)
    (fits : before.size + p.count ≤ above) :
    (p.targets before.size).foldl (asPatternBelow above)
      (before ++ p.nodes true before.size after ++ post) =
      before ++ p.nodes false before.size after ++ post := by
  induction p generalizing before post after above with
  | name n => exact (name n).foldl_asPattern_target before post after above fits
  | array opening es closing ih =>
    exact foldl_asPattern_push _ _ rfl (by rw [size_nodes]; rfl) fits fun post =>
      ih before post _ _ (Nat.le_refl _)
  | object opening ps closing ih =>
    refine foldl_asPattern_push _ _ rfl (by rw [size_nodes]; rfl) fits fun post =>
      ih before post _ _ (Nat.le_refl _)
  | plain t ih => exact ih before post after above fits
  | defaulted t eq d _ =>
    refine foldl_asPattern_push _ _ rfl (by rw [Array.size_push, size_nodes]; rfl) fits
      fun post => ?_
    have settled := t.foldl_asPattern_target before
      (#[nameNode d (after + byteSize t.text + byteSize (eq.mark .eq)) .identifier] ++ post) after
      ((defaulted t eq d).root before.size) (Nat.le_succ _)
    simpa using settled
  | item v ih => exact ih before post after above fits
  | rest dots t ih =>
    exact foldl_asPattern_push _ _ rfl (by rw [size_nodes]; rfl) fits fun post =>
      ih before post _ _ (Nat.le_refl _)
  | noElements => rfl
  | hole comma es ih => exact ih before post _ above fits
  | lastElement e ih => exact ih before post after above fits
  | moreElements e comma es ihe ih =>
    have rest := ih (before ++ e.nodes false before.size after) post
      (after + byteSize e.text + byteSize (comma.mark .comma)) above
      (by rw [Array.size_append, size_nodes, Nat.add_assoc]; exact fits)
    rw [Array.size_append, size_nodes] at rest
    exact foldl_asPattern_append (e.targets before.size)
      (fun post => ihe before post after above (Nat.le_trans (by simp [count]) fits)) rest
  | shorthand n =>
    refine foldl_asPattern_keyed #[_] #[_] rfl rfl fits fun post => ?_
    exact foldl_asPattern_settled #[] (nameNode n after .identifier) rfl
      (by rw [Array.size_push]; rfl) (Nat.lt_succ_self _)
  | shorthandDefaulted n eq d =>
    refine foldl_asPattern_keyed #[_, _, _] #[_, _, _] rfl rfl fits fun post =>
      foldl_asPattern_push #[_, _] #[_, _] rfl (by rw [Array.size_push]; rfl)
        (Nat.lt_succ_self _) fun post => ?_
    have settled := @foldl_asPattern_settled (before.push (nameNode n after .propertyName))
      (#[nameNode d (after + byteSize n.text + byteSize (eq.mark .eq)) .identifier] ++ post) #[]
      (nameNode n after .identifier) _ (before.size + 3) rfl rfl (by simp)
    rw [Array.size_push, ← append_pair] at settled
    exact settled
  | named key colon v ih =>
    refine foldl_asPattern_keyed _ _ rfl (by rw [size_nodes]; rfl) fits fun post => ?_
    have value := ih (before.push (nameNode key after .propertyName)) post
      (after + byteSize key.text + byteSize (colon.mark .colon))
      ((named key colon v).root before.size) (by rw [Array.size_push]; exact keyed_le)
    rw [Array.size_push] at value
    exact value
  | computed opening key closing colon v ih =>
    refine foldl_asPattern_keyed _ _ rfl (by rw [size_nodes]; rfl) fits fun post => ?_
    have value := ih (before.push (nameNode key (after + byteSize (opening.mark .openBracket))
        .identifier)) post
      (after + byteSize (opening.mark .openBracket) + byteSize key.text +
        byteSize (closing.mark .closeBracket) + byteSize (colon.mark .colon))
      ((computed opening key closing colon v).root before.size)
      (by rw [Array.size_push]; exact keyed_le)
    rw [Array.size_push] at value
    exact value
  | restProperty dots t ih =>
    exact foldl_asPattern_push _ _ rfl (by rw [size_nodes]; rfl) fits fun post =>
      ih before post _ _ (Nat.le_refl _)
  | noProperties => rfl
  | lastProperty p ih => exact ih before post after above fits
  | moreProperties p comma ps ihp ih =>
    have rest := ih (before ++ p.nodes false before.size after) post
      (after + byteSize p.text + byteSize (comma.mark .comma)) above
      (by rw [Array.size_append, size_nodes, Nat.add_assoc]; exact fits)
    rw [Array.size_append, size_nodes] at rest
    exact foldl_asPattern_append (p.targets before.size)
      (fun post => ihp before post after above (Nat.le_trans (by simp [count]) fits)) rest

/-- The literal of a target becomes the pattern of the same text. -/
theorem asPattern_target (p : Phrase .target) (before : NodeTable) (after : Offset) :
    NodeTable.asPattern (before ++ p.nodes true before.size after) (p.root before.size) =
      before ++ p.nodes false before.size after := by
  have become := p.foldl_asPattern before #[] after (before.size + p.count) (Nat.le_refl _)
  simpa [targets, asPatternBelow, p.root_lt before.size] using become

/-- A target with another gap before its own. -/
def indent (gap : Gap) : Phrase .target → Phrase .target
  | name w => name { w with gap := gap.append w.gap }
  | array opening es closing => array (gap.append opening) es closing
  | object opening ps closing => object (gap.append opening) ps closing

theorem text_indent (gap : Gap) (x : Phrase .target) :
    (x.indent gap).text = gap.text ++ x.text := by
  cases x <;> simp [indent, text, Word.text, Gap.mark, Gap.append]

theorem count_indent (gap : Gap) (x : Phrase .target) : (x.indent gap).count = x.count := by
  cases x <;> rfl

theorem root_indent (gap : Gap) (x : Phrase .target) (first : NodeId) :
    (x.indent gap).root first = x.root first := by
  rw [root, count_indent, root]

theorem levels_indent (gap : Gap) (x : Phrase .target) : (x.indent gap).levels = x.levels := by
  cases x <;> rfl

theorem nodes_indent (gap : Gap) (x : Phrase .target) (literal : Bool) (first : NodeId)
    (after : Offset) : (x.indent gap).nodes literal first after =
      x.nodes literal first (after + byteSize gap.text) := by
  cases x <;> simp [indent, nodes, nameNode, node, lead, text, Word.text, Gap.mark, Gap.append,
    Text.byteSize_append, Nat.add_assoc]

/-- Every level takes some text, so the room there is for a text is enough for its levels. -/
theorem levels_le (x : Phrase f) : x.levels ≤ 2 * byteSize x.text ∧
    (f = .target → x.levels + 2 ≤ 2 * byteSize x.text) := by
  have word (w : Word) : 1 ≤ byteSize w.text := by
    have first : byteSize w.name.text = w.name.first.utf8Size + byteSize w.name.rest := rfl
    have := w.name.first.utf8Size_pos
    rw [Word.text, Text.byteSize_append]
    omega
  have brackets (opening closing : Gap) (m m' : Token.Punctuator) (inner : List Char) :
      byteSize inner + 2 ≤ byteSize (opening.mark m ++ (inner ++ closing.mark m')) := by
    have := byteSize_gap_lt opening m
    have := byteSize_gap_lt closing m'
    simp only [Text.byteSize_append]
    omega
  induction x with
  | name w =>
    have := word w
    simp only [levels, text]
    omega
  | array opening es closing ih =>
    have := brackets opening closing .openBracket .closeBracket es.text
    simp only [levels, text]
    omega
  | object opening ps closing ih =>
    have := brackets opening closing .openBrace .closeBrace ps.text
    simp only [levels, text]
    omega
  | defaulted x eq d ih =>
    have := word d
    have := byteSize_gap_lt eq .eq
    simp only [levels, text, Text.byteSize_append, reduceCtorEq, false_implies, and_true] at *
    omega
  | shorthandDefaulted w eq d =>
    have := word w
    simp only [levels, text, Text.byteSize_append, reduceCtorEq, false_implies, and_true]
    omega
  | computed opening key closing colon v ih =>
    have := word key
    simp only [levels, text, Text.byteSize_append, reduceCtorEq, false_implies, and_true] at *
    omega
  | _ =>
    simp only [levels, text, Text.byteSize_append, reduceCtorEq, false_implies, and_true,
      true_implies] at *
    omega

theorem nodes_moved (x : Phrase f) (literal : Bool) (first : NodeId) (after bytes : Offset) :
    x.nodes literal first (after + bytes) =
      (x.nodes literal first after).map (Node.moved · bytes) := by
  have comm (after size : Offset) : after + bytes + size = after + size + bytes :=
    Nat.add_right_comm _ _ _
  induction x generalizing literal first after <;> simp [nodes, nameNode, node, Node.moved, *]

end Phrase
end LoopCapture.Grammar
