/-! # Paths

A path is its segments between slashes, kept as written. Empty segments and single dots are filler:
they take part in no comparison, except that a dot in front of a relative path is a component.
-/

namespace LoopCapture.Files

/-- A path as written: what stands between the slashes after a leading one. -/
structure Path where
  isAbsolute : Bool
  segments : List String
deriving DecidableEq, Repr, Inhabited

/-- A step of a path. -/
inductive Component where
  | root
  | here
  | up
  | name (s : String)
deriving DecidableEq, Repr, Inhabited

namespace Component

/-- The place of a component among those of another kind. -/
def rank : Component → Nat
  | .root => 0
  | .here => 1
  | .up => 2
  | .name _ => 3

/-- A component comes before another: by kind, then by name. -/
def precedes (a b : Component) : Bool :=
  match a, b with
  | .name s, .name t => s < t
  | _, _ => a.rank < b.rank

end Component

/-- A segment that takes no part in comparisons. -/
def isFiller (segment : String) : Bool := segment == "" || segment == "."

/-- The component that a segment is, unless it is filler. -/
def componentOf? (segment : String) : Option Component :=
  if isFiller segment then none else if segment = ".." then some .up else some (.name segment)

/-- One list of components comes before another: at the first difference, or by ending first. -/
def componentsPrecede : List Component → List Component → Bool
  | _, [] => false
  | [], _ :: _ => true
  | a :: as, b :: bs => a.precedes b || (a == b && componentsPrecede as bs)

/-- Drops the segments that make up the given number of components. -/
def dropComponents : Nat → List String → List String
  | 0, segments => segments
  | _ + 1, [] => []
  | n + 1, s :: rest => if isFiller s then dropComponents (n + 1) rest else dropComponents n rest

namespace Path

def ofText (text : String) : Path :=
  match text.splitOn "/" with
  | "" :: first :: rest => ⟨true, first :: rest⟩
  | segments => ⟨false, segments⟩

def text (p : Path) : String :=
  (if p.isAbsolute then "/" else "") ++ "/".intercalate p.segments

/-- The path is relative and begins with a dot. -/
def startsHere (p : Path) : Bool := !p.isAbsolute && p.segments.head? == some "."

def components (p : Path) : List Component :=
  (if p.isAbsolute then [.root] else if p.startsHere then [.here] else []) ++
    p.segments.filterMap componentOf?

/-- Two paths are the same when their components are. -/
def isSame (a b : Path) : Bool := a.components == b.components

def precedes (a b : Path) : Bool := componentsPrecede a.components b.components

def trimmed (p : Path) : Path :=
  match (p.segments.reverse.dropWhile isFiller).reverse with
  | [] => { p with segments := if p.startsHere then ["."] else [] }
  | segments => { p with segments }

/-- A path seen from another one: an absolute path stays as it is. -/
def join (base p : Path) : Path :=
  if p.isAbsolute then p
  else
    let front := if base.segments.getLast? = some "" then base.segments.dropLast else base.segments
    { base with segments := front ++ p.segments }

def below (base : Path) (names : List String) : Path := base.join ⟨false, names⟩

def parent? (p : Path) : Option Path :=
  match p.components.getLast? with
  | none | some .root => none
  | some _ => some (trimmed { p.trimmed with segments := p.trimmed.segments.dropLast })

def ancestorsUpTo : Nat → Path → List Path
  | 0, p => [p]
  | n + 1, p => p :: (p.parent?.elim [] (ancestorsUpTo n))

/-- A path and the paths around it, innermost first. -/
def ancestors (p : Path) : List Path := ancestorsUpTo p.components.length p

/-- A path as seen from a path it begins with. -/
def relativeTo? (p base : Path) : Option Path :=
  if base.components.isPrefixOf p.components then
    let count := (base.components.filter (· ≠ .root)).length
    some (trimmed ⟨false, (dropComponents count p.segments).dropWhile isFiller⟩)
  else none

def fileName? (p : Path) : Option String :=
  match p.components.getLast? with
  | some (.name s) => some s
  | _ => none

/-- What follows the last dot of the file name, unless the name has its only dot in front. -/
def extension? (p : Path) : Option String :=
  p.fileName?.bind fun name =>
    let tail := name.toList.reverse.takeWhile (· ≠ '.')
    let stem := name.toList.length - tail.length - 1
    if 0 < stem then some (String.ofList tail.reverse) else none

end Path
end LoopCapture.Files
