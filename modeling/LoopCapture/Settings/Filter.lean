import LoopCapture.Glob.Matching
import LoopCapture.Glob.Reading

/-! # Filters

A filter tells which files below a directory are linted: those that some glob includes and none
excludes.
-/

namespace LoopCapture.Settings

structure Filter where
  included : List (List Glob.Piece)
  excluded : List (List Glob.Piece)

namespace Filter

/-- Some glob excludes the path. -/
def excludes (f : Filter) (path : String) : Bool := f.excluded.any (Glob.fits · path)

/-- Some glob includes the path and none excludes it. -/
def admits (f : Filter) (path : String) : Bool :=
  f.included.any (Glob.fits · path) && !f.excludes path

end Filter
end LoopCapture.Settings
