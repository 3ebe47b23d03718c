import LoopCapture.Glob.Piece

/-! # Matching globs

A path is matched byte by byte. What a piece does is told by the places of the path that can be
reached after it, given the places that can be reached before it: a list of one truth value for each
place, the one before the first byte included.
-/

namespace LoopCapture.Glob

/-- For each place of a path, whether it can be reached. -/
abbrev Places := List Bool

namespace Places

/-- Only the place in front can be reached. -/
def start (path : List UInt8) : Places := true :: path.map fun _ => false

def byByte (fits : UInt8 → Bool) (path : List UInt8) (places : Places) : Places :=
  false :: List.zipWith (fun reached byte => reached && fits byte) places path

/-- What can be reached by any bytes, once a place before has been reached. -/
def onwardsFrom (reached : Bool) : Places → Places
  | [] => []
  | place :: rest => (reached || place) :: onwardsFrom (reached || place) rest

def onwards (places : Places) : Places := onwardsFrom false places

def bySlash (path : List UInt8) (places : Places) : Places :=
  byByte (· == '/'.toUInt8) path places

def union (a b : Places) : Places := List.zipWith (· || ·) a b

def byBytes (path : List UInt8) (places : Places) (bytes : List UInt8) : Places :=
  bytes.foldl (fun places byte => byByte (· == byte) path places) places

end Places

def bytesOf (c : Char) : List UInt8 := (String.singleton c).toUTF8.toList

/-- The byte ranges of a range of characters. Characters of several bytes stand in a class for each
of their bytes, and a range runs from the last byte of the first to the first byte of the last. -/
def byteRanges (range : Char × Char) : List (UInt8 × UInt8) :=
  let single (b : UInt8) := (b, b)
  if range.1 = range.2 then (bytesOf range.1).map single
  else
    let (first, last) := (bytesOf range.1, bytesOf range.2)
    first.dropLast.map single ++ [(first.getLastD 0, last.headD 0)] ++ last.tail.map single

/-- A byte belongs to a class. -/
def classHolds (isNegated : Bool) (ranges : List (Char × Char)) (byte : UInt8) : Bool :=
  isNegated != (ranges.flatMap byteRanges).any fun (first, last) => first ≤ byte && byte ≤ last

mutual

/-- A piece that matches nothing by itself and has no effect: a group of such branches. -/
def Piece.isVoid : Piece → Bool
  | .alternatives branches => branchesAreVoid branches
  | _ => false

/-- A branch of pieces without effect. -/
def branchIsVoid : List Piece → Bool
  | [] => true
  | p :: rest => p.isVoid && branchIsVoid rest

def branchesAreVoid : List (List Piece) → Bool
  | [] => true
  | b :: rest => branchIsVoid b && branchesAreVoid rest

end

mutual

/-- What can be reached by a piece. Of a group, branches without effect do not count. -/
def Piece.reach (path : List UInt8) (places : Places) : Piece → Places
  | .literal c => places.byBytes path (bytesOf c)
  | .any => places.byByte (fun _ => true) path
  | .star => places.onwards
  | .leading => places.union (places.onwards.bySlash path)
  | .trailing => (places.bySlash path).onwards
  | .between => (places.bySlash path).union ((places.bySlash path).onwards.bySlash path)
  | .oneOf isNegated ranges => places.byByte (classHolds isNegated ranges) path
  | .alternatives branches =>
    if branchesAreVoid branches then places else reachByBranches path places branches

def reachByAll (path : List UInt8) (places : Places) : List Piece → Places
  | [] => places
  | p :: rest => reachByAll path (p.reach path places) rest

def reachByBranches (path : List UInt8) (places : Places) : List (List Piece) → Places
  | [] => places.map fun _ => false
  | b :: rest =>
    let others := reachByBranches path places rest
    if branchIsVoid b then others else (reachByAll path places b).union others

end

/-- The character is no slash. -/
def isPlain : Piece → Bool
  | .literal c => c != '/'
  | _ => false

/-- The character is neither a slash nor a dot. -/
def isDotless : Piece → Bool
  | .literal c => c != '/' && c != '.'
  | _ => false

def isLiteral : Piece → Bool
  | .literal _ => true
  | _ => false

def namesFile : List Piece → Bool
  | .leading :: rest => !rest.isEmpty && rest.all isPlain
  | _ => false

def namesExtension : List Piece → Bool
  | .leading :: .star :: .literal '.' :: rest | .star :: .literal '.' :: rest =>
    rest.all isDotless
  | _ => false

/-- Stars in front and an end that is given. -/
def namesEnd (pieces : List Piece) : Bool :=
  let rest := match pieces with
    | .leading :: .star :: rest | .leading :: rest | .star :: rest => rest
    | _ => pieces
  !rest.isEmpty && rest.all isLiteral

def endsInExtension (pieces : List Piece) : Bool :=
  match pieces.reverse.dropWhile isDotless with
  | .literal '.' :: _ => true
  | _ => false

/-- The glob is decided by the name of a file or its extension. -/
def isByName (pieces : List Piece) : Bool :=
  namesFile pieces ||
    (!pieces.all isLiteral &&
      (namesExtension pieces || (!namesEnd pieces && endsInExtension pieces)))

/-- A path ends in a component that is no name but leads upwards. -/
def endsUpwards (path : String) : Bool := (path.splitOn "/").getLast? == some ".."

/-- A glob matches a path. A glob that is decided by the name of a file does not match where a path
leads upwards, which has no name. -/
def fits (pieces : List Piece) (path : String) : Bool :=
  match pieces with
  | [.leading] => true
  | _ =>
    let bytes := path.toUTF8.toList
    (reachByAll bytes (.start bytes) pieces).getLastD false &&
      !(endsUpwards path && isByName pieces)

end LoopCapture.Glob
