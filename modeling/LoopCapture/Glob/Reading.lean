import LoopCapture.Glob.Piece

/-! # Reading globs

A glob is read from left to right into the branch that is open. Groups in braces may be nested; a
comma outside of them is a character like others.
-/

namespace LoopCapture.Glob

/-- A group whose end has not been read: its branches so far and the pieces before it, the last
ones first. -/
structure Group where
  branches : List (List Piece)
  before : List Piece

/-- What has been read: the pieces of the open branch and the groups around it, the last ones
first. -/
structure Draft where
  pieces : List Piece := []
  groups : List Group := []

namespace Draft

def push (d : Draft) (p : Piece) : Draft := { d with pieces := p :: d.pieces }

/-- Adds two stars that do not stand for directories. -/
def pushStars (d : Draft) : Draft := (d.push .star).push .star

def inGroup (d : Draft) : Bool := !d.groups.isEmpty

def openGroup (d : Draft) : Draft := ⟨[], ⟨[], d.pieces⟩ :: d.groups⟩

/-- Begins another branch of the open group; outside of groups a comma is a literal. -/
def comma (d : Draft) : Draft :=
  match d.groups with
  | [] => d.push (.literal ',')
  | g :: groups => ⟨[], { g with branches := d.pieces.reverse :: g.branches } :: groups⟩

def closeGroup (d : Draft) : Except Fault Draft :=
  match d.groups with
  | [] => .error .unopenedGroup
  | g :: groups =>
    .ok ⟨.alternatives (d.pieces.reverse :: g.branches).reverse :: g.before, groups⟩

/-- Two stars take the place of the slash before them, unless that one already belongs to two
stars with the same effect. -/
def absorb (d : Draft) (p : Piece) : Draft :=
  match d.pieces with
  | .leading :: _ | .trailing :: _ => d
  | _ :: rest => { d with pieces := p :: rest }
  | [] => d.push p

/-- Two stars can stand for directories only after a slash, or where a branch of a group begins. -/
def mayAbsorb (d : Draft) (before : Option Char) : Bool :=
  before == some '/' || (d.inGroup && (before == some ',' || before == some '\x7b'))

/-- Adds two stars and a slash. -/
def starsAndSlash (d : Draft) (before : Option Char) : Draft :=
  if d.pieces.isEmpty then d.push .leading
  else if d.mayAbsorb before then d.absorb .between
  else d.pushStars.push (.literal '/')

/-- Adds two stars that no slash follows. They stand for directories only at the end. -/
def stars (d : Draft) (before next : Option Char) : Draft :=
  if d.pieces.isEmpty then if next.isNone then d.push .leading else d.pushStars
  else
    let isLast := next.all fun c => d.inGroup && (c == ',' || c == '\x7d')
    if isLast && d.mayAbsorb before then d.absorb .trailing else d.pushStars

def finish (d : Draft) : Except Fault (List Piece) :=
  if d.inGroup then .error .unclosedGroup else .ok d.pieces.reverse

end Draft

/-- A class whose end has not been read, the last range first. -/
structure Class where
  isNegated : Bool
  ranges : List (Char × Char) := []
  isFirst : Bool := true
  inRange : Bool := false

namespace Class

/-- The piece that a class is. A minus sign at the end stands for itself. -/
def piece (k : Class) : Piece :=
  .oneOf k.isNegated (if k.inRange then ('-', '-') :: k.ranges else k.ranges).reverse

/-- Adds a character on its own. -/
def add (k : Class) (c : Char) : Class :=
  { k with ranges := (c, c) :: k.ranges, isFirst := false, inRange := false }

/-- Ends the open range with a character. -/
def extend (k : Class) (c : Char) : Except Fault Class :=
  match k.ranges with
  | [] => .ok (k.add c)
  | (first, _) :: rest =>
    if c < first then .error (.invalidRange first c)
    else .ok { k with ranges := (first, c) :: rest, isFirst := false, inRange := false }

/-- Adds the next character, which does not end the class. -/
def next (k : Class) (c : Char) : Except Fault Class :=
  if k.inRange then k.extend c
  else if c = '-' && !k.isFirst then .ok { k with inRange := true }
  else .ok (k.add c)

end Class

mutual

def readFrom (before : Option Char) (d : Draft) : List Char → Except Fault (List Piece)
  | [] => d.finish
  | '*' :: '*' :: '/' :: rest => readFrom (some '/') (d.starsAndSlash before) rest
  | '*' :: '*' :: rest => readFrom (some '*') (d.stars before rest.head?) rest
  | '*' :: rest => readFrom (some '*') (d.push .star) rest
  | '?' :: rest => readFrom (some '?') (d.push .any) rest
  | '[' :: '!' :: rest => readClass d { isNegated := true } rest
  | '[' :: '^' :: rest => readClass d { isNegated := true } rest
  | '[' :: rest => readClass d { isNegated := false } rest
  | '\x7b' :: rest => readFrom (some '\x7b') d.openGroup rest
  | '\x7d' :: rest =>
    match d.closeGroup with
    | .ok d => readFrom (some '\x7d') d rest
    | .error fault => .error fault
  | ',' :: rest => readFrom (some ',') d.comma rest
  | ['\\'] => .error .danglingEscape
  | '\\' :: c :: rest => readFrom (some c) (d.push (.literal c)) rest
  | c :: rest => readFrom (some c) (d.push (.literal c)) rest
termination_by structural cs => cs

def readClass (d : Draft) (k : Class) : List Char → Except Fault (List Piece)
  | [] => .error .unclosedClass
  | c :: rest =>
    if c = ']' && !k.isFirst then readFrom (some ']') (d.push k.piece) rest
    else
      match k.next c with
      | .ok k => readClass d k rest
      | .error fault => .error fault
termination_by structural cs => cs

end

def read (glob : String) : Except Fault (List Piece) := readFrom none {} glob.toList

end LoopCapture.Glob
