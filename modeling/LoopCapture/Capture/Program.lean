import LoopCapture.Grammar.SourceFile
import LoopCapture.Scope.Resolution

/-! # Programs

A syntax tree together with its scope graph, which is all that the search for captures looks at.
-/

namespace LoopCapture.Capture
open Syntax (Tree)
open Scope (Environment Graph Reference ReferenceId ScopeId)

/-- A syntax tree with its scope graph. -/
structure Program where
  tree : Tree
  graph : Graph

namespace Program

def ofTree (t : Tree) (environment : Environment) : Program := ⟨t, .ofTree t environment⟩

/-- The program that a text is in its surroundings, whether or not the text has syntax errors. -/
def ofText (text : List Char) (environment : Environment) : Program :=
  ofTree (Grammar.parseText text).tree environment

def references (p : Program) (ids : List ReferenceId) : List Reference :=
  ids.filterMap (p.graph.references[·]?)

def captures (p : Program) (s : ScopeId) : List Reference := p.references (p.graph.through s)

end Program
end LoopCapture.Capture
