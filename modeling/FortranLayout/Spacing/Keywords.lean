import FortranLayout.Kind
import FortranLayout.Text.Pattern

/-!
# Keywords whose spacing is set

Two tables. The adjacent keywords are pairs and triples of words that may be written together or
apart, such as `END DO` and `ENDDO`; the after keywords are the statement keywords for which the
number of blanks after them is set.
-/

namespace FortranLayout

open Text (Piece Pattern)

/-- The nodes whose text an entry of the adjacent keywords changes. -/
inductive KeywordTarget where
  /-- Every node of the kind. -/
  | kind (kind : Kind)
  /-- The type names inside an intrinsic type. -/
  | intrinsicTypeName
deriving DecidableEq, Repr

/-- The name of the target. -/
def KeywordTarget.label : KeywordTarget → String
  | kind k => "Kind(" ++ k.label ++ ")"
  | intrinsicTypeName => "IntrinsicTypeName"

/-- An entry of the adjacent keywords. -/
structure AdjacentKeyword where
  /-- The words in lower case. -/
  words : List String
  target : KeywordTarget
  /-- The number of blanks between the words, unless set otherwise. -/
  standard : Nat := 1
  /-- The least legal number of blanks. -/
  least : Nat := 0
deriving DecidableEq, Repr

namespace AdjacentKeyword

/-- The key under which the entry is set: its words, joined by underscores. -/
def key (k : AdjacentKeyword) : String := "_".intercalate k.words

/-- The words of the entry with `count` blanks between them. -/
def pattern (k : AdjacentKeyword) (count : Nat) : Pattern :=
  [Piece.gap 0 (some count)].intercalate (k.words.map Pattern.spelling)

/-- Sets the number of blanks between the words wherever they occur in a text. -/
def apply (k : AdjacentKeyword) (count : Nat) (s : List Char) : List Char :=
  (k.pattern count).everywhere s

/-- All entries, in the order in which they are applied. `END SELECT` stands twice: as `end selec`
it closes a SELECT CASE. -/
def all : List AdjacentKeyword :=
  [{ words := ["block", "data"], target := .kind .blockDataStmt },
   { words := ["double", "precision"], target := .intrinsicTypeName },
   { words := ["else", "if"], target := .kind .elseIfStmt },
   { words := ["else", "where"], target := .kind .elseWhereStmt, standard := 0 },
   { words := ["end", "associate"], target := .kind (.endConstructStmt .associate) },
   { words := ["end", "block"], target := .kind (.endConstructStmt .block) },
   { words := ["end", "block", "data"], target := .kind .endBlockDataStmt },
   { words := ["end", "critical"], target := .kind (.endConstructStmt .critical) },
   { words := ["end", "do"], target := .kind (.endConstructStmt .doLoop) },
   { words := ["end", "enum"], target := .kind (.endConstructStmt .enumeration) },
   { words := ["end", "file"], target := .kind .endFileStmt },
   { words := ["end", "forall"], target := .kind (.endConstructStmt .forallLoop) },
   { words := ["end", "function"], target := .kind (.endUnitStmt .function) },
   { words := ["end", "if"], target := .kind .endIfStmt },
   { words := ["end", "interface"], target := .kind (.endUnitStmt .interface) },
   { words := ["end", "module"], target := .kind (.endUnitStmt .module) },
   { words := ["end", "procedure"], target := .kind (.endUnitStmt .procedure) },
   { words := ["end", "program"], target := .kind (.endUnitStmt .program) },
   { words := ["end", "selec"], target := .kind .endSelectCaseStmt },
   { words := ["end", "select"], target := .kind (.endConstructStmt .selectType) },
   { words := ["end", "submodule"], target := .kind (.endUnitStmt .submodule) },
   { words := ["end", "subroutine"], target := .kind (.endUnitStmt .subroutine) },
   { words := ["end", "team"], target := .kind (.endConstructStmt .changeTeam) },
   { words := ["end", "type"], target := .kind (.endConstructStmt .derivedType) },
   { words := ["end", "where"], target := .kind .endWhereStmt },
   { words := ["go", "to"], target := .kind .gotoStmt, standard := 0 },
   { words := ["in", "out"], target := .kind .intentSpec, standard := 0 },
   { words := ["select", "case"], target := .kind .selectCaseStmt },
   { words := ["select", "type"], target := .kind (.constructStmt .selectType) },
   { words := ["implicit", "none"], target := .kind .implicitNoneStmt, least := 1 },
   { words := ["module", "procedure"], target := .kind (.unitStmt .procedure), least := 1 }]

/-- The entry with the given key. -/
def find? (key : String) : Option AdjacentKeyword := all.find? (·.key == key)

end AdjacentKeyword

/-- An entry of the after keywords. -/
structure AfterKeyword where
  /-- The words of the keyword in lower case; any blanks may stand between them. -/
  words : List String
  kind : Kind
  /-- The number of blanks after the keyword, unless set otherwise. -/
  standard : Nat := 1
  /-- The least legal number of blanks. -/
  least : Nat := 1
deriving DecidableEq, Repr

namespace AfterKeyword

/-- The key under which the entry is set: its words, joined by hyphens. -/
def key (k : AfterKeyword) : String := "-".intercalate k.words

/-- The keyword, whatever blanks lead it and stand in it, with `count` blanks after it. -/
def pattern (k : AfterKeyword) (count : Nat) : Pattern :=
  Piece.gap 0 none :: [Piece.gap 0 none].intercalate (k.words.map Pattern.spelling) ++
    [.wordEnd, .gap 0 (some count)]

/-- Sets the number of blanks after the keyword at the start of a text. -/
def apply (k : AfterKeyword) (count : Nat) (s : List Char) : List Char :=
  (k.pattern count).atStart s

/-- All entries. -/
def all : List AfterKeyword :=
  [{ words := ["print"], kind := .printStmt, standard := 0, least := 0 },
   { words := ["call"], kind := .callStmt },
   { words := ["use"], kind := .useStmt },
   { words := ["do"], kind := .constructStmt .doLoop },
   { words := ["end", "file"], kind := .endFileStmt },
   { words := ["save"], kind := .saveStmt, least := 0 }]

/-- The entry with the given key. -/
def find? (key : String) : Option AfterKeyword := all.find? (·.key == key)

/-- The entry for statements of the given kind. -/
def forKind? (kind : Kind) : Option AfterKeyword := all.find? (·.kind == kind)

end AfterKeyword

end FortranLayout
