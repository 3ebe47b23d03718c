/-! # Keywords

Reserved words are never names. Contextual words are scanned as keywords and may still serve as
names; the grammar decides from where they stand.
-/

namespace LoopCapture.Token

inductive Keyword where
  | break_ | case_ | catch_ | class_ | const_ | continue_ | debugger_ | default_ | delete_ | do_
  | else_ | enum_ | export_ | extends_ | false_ | finally_ | for_ | function_ | if_ | import_
  | in_ | instanceof_ | new_ | null_ | return_ | super_ | switch_ | this_ | throw_ | true_
  | try_ | typeof_ | var_ | void_ | while_ | with_
  | abstract_ | accessor_ | as_ | async_ | await_ | declare_ | from_ | get_ | implements_
  | interface_ | keyof_ | let_ | of_ | override_ | private_ | protected_ | public_ | readonly_
  | satisfies_ | set_ | static_ | type_ | using_ | yield_
deriving DecidableEq, Repr, Inhabited

namespace Keyword

def reserved : List Keyword :=
  [ .break_, .case_, .catch_, .class_, .const_, .continue_, .debugger_, .default_, .delete_,
    .do_, .else_, .enum_, .export_, .extends_, .false_, .finally_, .for_, .function_, .if_,
    .import_, .in_, .instanceof_, .new_, .null_, .return_, .super_, .switch_, .this_, .throw_,
    .true_, .try_, .typeof_, .var_, .void_, .while_, .with_ ]

def contextual : List Keyword :=
  [ .abstract_, .accessor_, .as_, .async_, .await_, .declare_, .from_, .get_, .implements_,
    .interface_, .keyof_, .let_, .of_, .override_, .private_, .protected_, .public_, .readonly_,
    .satisfies_, .set_, .static_, .type_, .using_, .yield_ ]

/-- All keywords, the reserved ones first. -/
def all : List Keyword := reserved ++ contextual

/-- A word that may serve as a name. -/
def isContextual : Keyword → Bool
  | .abstract_ | .accessor_ | .as_ | .async_ | .await_ | .declare_ | .from_ | .get_
  | .implements_ | .interface_ | .keyof_ | .let_ | .of_ | .override_ | .private_ | .protected_
  | .public_ | .readonly_ | .satisfies_ | .set_ | .static_ | .type_ | .using_ | .yield_ => true
  | _ => false

/-- A word that is never a name. -/
def isReserved (k : Keyword) : Bool := !k.isContextual

def spelling : Keyword → String
  | .break_ => "break" | .case_ => "case" | .catch_ => "catch" | .class_ => "class"
  | .const_ => "const" | .continue_ => "continue" | .debugger_ => "debugger"
  | .default_ => "default" | .delete_ => "delete" | .do_ => "do" | .else_ => "else"
  | .enum_ => "enum" | .export_ => "export" | .extends_ => "extends" | .false_ => "false"
  | .finally_ => "finally" | .for_ => "for" | .function_ => "function" | .if_ => "if"
  | .import_ => "import" | .in_ => "in" | .instanceof_ => "instanceof" | .new_ => "new"
  | .null_ => "null" | .return_ => "return" | .super_ => "super" | .switch_ => "switch"
  | .this_ => "this" | .throw_ => "throw" | .true_ => "true" | .try_ => "try"
  | .typeof_ => "typeof" | .var_ => "var" | .void_ => "void" | .while_ => "while"
  | .with_ => "with" | .abstract_ => "abstract" | .accessor_ => "accessor" | .as_ => "as"
  | .async_ => "async" | .await_ => "await" | .declare_ => "declare" | .from_ => "from"
  | .get_ => "get" | .implements_ => "implements" | .interface_ => "interface"
  | .keyof_ => "keyof" | .let_ => "let" | .of_ => "of" | .override_ => "override"
  | .private_ => "private" | .protected_ => "protected" | .public_ => "public"
  | .readonly_ => "readonly" | .satisfies_ => "satisfies" | .set_ => "set"
  | .static_ => "static" | .type_ => "type" | .using_ => "using" | .yield_ => "yield"

def ofSpelling? (word : String) : Option Keyword := all.find? (·.spelling == word)

end Keyword
end LoopCapture.Token
