/-!
# Program units, blocks and constructs

The nouns of Fortran's block structure. A statement `X-stmt` opens and a statement `end-X-stmt`
closes a unit or construct; which `X` belongs to which construct is stated here once, as three small
tables.
-/

namespace FortranLayout

/-- A program unit: opened by `<keyword>-stmt`, closed by `end-<keyword>-stmt`. -/
inductive ProgramUnit where
  | subroutine
  | program
  | module
  | function
  | submodule
  /-- A separate module procedure. -/
  | procedure
  | interface
deriving DecidableEq, Repr

namespace ProgramUnit

/-- Every program unit. -/
def all : List ProgramUnit :=
  [subroutine, program, module, function, submodule, procedure, interface]

/-- The keyword of the unit's statements, in lower case. -/
def keyword : ProgramUnit → String
  | subroutine => "subroutine"
  | program => "program"
  | module => "module"
  | function => "function"
  | submodule => "submodule"
  | procedure => "procedure"
  | interface => "interface"

/-- The name of the unit. -/
def name : ProgramUnit → String
  | subroutine => "Subroutine"
  | program => "Program"
  | module => "Module"
  | function => "Function"
  | submodule => "Submodule"
  | procedure => "Procedure"
  | interface => "Interface"

/-- The unit with the given keyword. -/
def ofKeyword? (word : String) : Option ProgramUnit := all.find? (·.keyword == word)

theorem ofKeyword?_keyword (u : ProgramUnit) : ofKeyword? u.keyword = some u := by
  cases u <;> decide

end ProgramUnit

/-- The families of branch blocks. -/
inductive BlockFamily where
  | ifThen
  | whereMask
  | selectCase
deriving DecidableEq, Repr

/-- The name of the family. -/
def BlockFamily.name : BlockFamily → String
  | ifThen => "If"
  | whereMask => "Where"
  | selectCase => "SelectCase"

/-- The constructs that have a node of their own. -/
inductive Construct where
  | doLoop
  | ifThen
  | whereMask
  | selectCase
  | selectType
  | selectRank
  | forallLoop
  | associate
  | block
  | critical
  | changeTeam
  | derivedType
  | enumeration
  | interface
  /-- A construct outside the known set: a container without a known opener or closer. -/
  | other
deriving DecidableEq, Repr

namespace Construct

/-- Every construct, in the order in which they are listed. -/
def all : List Construct :=
  [doLoop, ifThen, whereMask, selectCase, selectType, selectRank, forallLoop, associate, block,
   critical, changeTeam, derivedType, enumeration, interface, other]

/-- The name of the construct. -/
def name : Construct → String
  | doLoop => "Do"
  | ifThen => "If"
  | whereMask => "Where"
  | selectCase => "SelectCase"
  | selectType => "SelectType"
  | selectRank => "SelectRank"
  | forallLoop => "Forall"
  | associate => "Associate"
  | block => "Block"
  | critical => "Critical"
  | changeTeam => "ChangeTeam"
  | derivedType => "DerivedType"
  | enumeration => "Enum"
  | interface => "Interface"
  | other => "Other"

/-- `X` of a tag `X-construct`, for the known constructs. -/
def tagStems : List (String × Construct) :=
  [("do", doLoop), ("if", ifThen), ("where", whereMask), ("selectcase", selectCase),
   ("selecttype", selectType), ("selectrank", selectRank), ("forall", forallLoop),
   ("associate", associate), ("block", block), ("critical", critical), ("change-team", changeTeam),
   ("T", derivedType), ("enum", enumeration), ("interface", interface)]

/-- `X` of a tag `X-stmt` that opens the body of a construct. -/
def openerStems : List (String × Construct) :=
  [("do", doLoop), ("forall-construct", forallLoop), ("associate", associate), ("block", block),
   ("critical", critical), ("change-team", changeTeam), ("T", derivedType), ("enum", enumeration),
   ("enum-def", enumeration), ("select-T", selectType), ("select-rank", selectRank)]

/-- `X` of a tag `end-X-stmt` that closes a construct. -/
def closerStems : List (String × Construct) :=
  [("do", doLoop), ("forall", forallLoop), ("associate", associate), ("block", block),
   ("critical", critical), ("change-team", changeTeam), ("T", derivedType), ("enum", enumeration),
   ("select-T", selectType), ("select-rank", selectRank)]

/-- The construct of the tag `stem-construct`. -/
def ofStem (stem : String) : Construct := (tagStems.lookup stem).getD other

end Construct

end FortranLayout
