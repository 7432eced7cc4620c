import FortranLayout.Construct
import FortranLayout.Text.Affix

/-!
# Kinds of nodes

A node of the tree carries a tag, the grammar category that the parser gave it. Tags are classified
into a closed set of kinds, so that the passes can speak of statements, containers, openers and
closers.

* `Kind.ofTag` looks a tag up in `Kind.ofExactTag`; tags outside the table are classified by their
  ending.
* `Kind.isStatement`, `Kind.isContainer` and the predicates after them are what the passes ask.
-/

namespace FortranLayout

/-- The kind of a node. -/
inductive Kind where
  -- Structure
  | file
  | programUnit
  | unitStmt (unit : ProgramUnit)
  | endUnitStmt (unit : ProgramUnit)
  | block (family : BlockFamily)
  | construct (construct : Construct)
  | constructStmt (construct : Construct)
  | endConstructStmt (construct : Construct)
  -- Branch statements
  | ifThenStmt
  | elseIfStmt
  | elseStmt
  | endIfStmt
  | whereConstructStmt
  | elseWhereStmt
  | endWhereStmt
  | selectCaseStmt
  | caseStmt
  | endSelectCaseStmt
  -- One-line conditionals and their parts
  | ifStmt
  | whereStmt
  | forallStmt
  | actionStmt
  | condition
  | mask
  | forallTriplets
  -- Other statements
  | cycleStmt
  | containsStmt
  | assignStmt
  | pointerAssignStmt
  | callStmt
  | useStmt
  | declStmt
  | printStmt
  | writeStmt
  | namelistStmt
  | implicitNoneStmt
  | enumeratorStmt
  | blockDataStmt
  | endBlockDataStmt
  | endFileStmt
  | gotoStmt
  | saveStmt
  | otherStmt
  -- Comments, directives, markers and separators
  | comment
  | directive
  | continuation
  | separator
  -- Expressions, names and what holds punctuation
  | affectation
  | opExpr
  | op
  | opSpelling
  | name
  | namePart
  | typeName
  | attributeName
  | moduleName
  | attributeSpec
  | typeSpec
  | intrinsicTypeSpec
  | intentSpec
  | lowerBound
  | upperBound
  | doVar
  | var
  | argName
  | enumeratorName
  | namedConstant
  | associateName
  | literalExpr
  | literal
  | stringExpr
  | stringLit
  | namedExpr
  | refList
  | componentRef
  | componentName
  | other
deriving DecidableEq, Repr

namespace Kind

/-! ## Classification of tags -/

/-- The tags that name their kind directly. -/
def exactTags : List (String × Kind) :=
  [("file", file), ("program-unit", programUnit), ("if-block", block .ifThen),
   ("where-block", block .whereMask), ("selectcase-block", block .selectCase),
   ("if-then-stmt", ifThenStmt), ("else-if-stmt", elseIfStmt), ("else-stmt", elseStmt),
   ("end-if-stmt", endIfStmt), ("where-construct-stmt", whereConstructStmt),
   ("else-where-stmt", elseWhereStmt), ("end-where-stmt", endWhereStmt),
   ("select-case-stmt", selectCaseStmt), ("case-stmt", caseStmt),
   ("end-select-case-stmt", endSelectCaseStmt), ("if-stmt", ifStmt), ("where-stmt", whereStmt),
   ("forall-stmt", forallStmt), ("action-stmt", actionStmt), ("condition-E", condition),
   ("mask-E", mask), ("forall-triplet-spec-LT", forallTriplets), ("cycle-stmt", cycleStmt),
   ("contains-stmt", containsStmt), ("a-stmt", assignStmt), ("pointer-a-stmt", pointerAssignStmt),
   ("call-stmt", callStmt), ("use-stmt", useStmt), ("T-decl-stmt", declStmt),
   ("print-stmt", printStmt), ("write-stmt", writeStmt), ("namelist-stmt", namelistStmt),
   ("implicit-none-stmt", implicitNoneStmt), ("enumerator-stmt", enumeratorStmt),
   ("block-data-stmt", blockDataStmt), ("end-block-data-stmt", endBlockDataStmt),
   ("end-file-stmt", endFileStmt), ("goto-stmt", gotoStmt), ("save-stmt", saveStmt),
   ("C", comment), ("cpp", directive), ("cnt", continuation), ("smc", separator),
   ("a", affectation), ("op-E", opExpr), ("op", op), ("o", opSpelling), ("N", name),
   ("n", namePart), ("T-N", typeName), ("attribute-N", attributeName), ("module-N", moduleName),
   ("attribute", attributeSpec), ("_T-spec_", typeSpec), ("intrinsic-T-spec", intrinsicTypeSpec),
   ("intent-spec", intentSpec), ("lower-bound", lowerBound), ("upper-bound", upperBound),
   ("do-V", doVar), ("V", var), ("arg-N", argName), ("EN-N", enumeratorName),
   ("named-constant", namedConstant), ("associate-N", associateName), ("literal-E", literalExpr),
   ("l", literal), ("string-E", stringExpr), ("S", stringLit), ("named-E", namedExpr),
   ("R-LT", refList), ("component-R", componentRef), ("ct", componentName)]

/-- The kind of the tag `end-stem-stmt`, if it closes a unit or a known construct. -/
def ofCloser? (stem : String) : Option Kind :=
  match ProgramUnit.ofKeyword? stem with
  | some unit => some (endUnitStmt unit)
  | none => (Construct.closerStems.lookup stem).map endConstructStmt

/-- The kind of the tag `stem-stmt`, for a tag outside the table of exact tags. -/
def ofStatementStem (stem : String) : Kind :=
  match ProgramUnit.ofKeyword? stem with
  | some unit => unitStmt unit
  | none =>
    match (Text.dropBeginning? "end-" stem).bind ofCloser? with
    | some closer => closer
    | none =>
      match Construct.openerStems.lookup stem with
      | some opened => constructStmt opened
      | none => otherStmt

/-- The kind of a tag outside the table of exact tags. -/
def ofEnding (tag : String) : Kind :=
  match Text.dropEnding? "-construct" tag with
  | some stem => construct (Construct.ofStem stem)
  | none =>
    match Text.dropEnding? "-stmt" tag with
    | some stem => ofStatementStem stem
    | none => other

/-- The kind of a tag. -/
def ofTag (tag : String) : Kind := (exactTags.lookup tag).getD (ofEnding tag)

/-! ## What the passes ask -/

/-- Whether nodes of this kind are statements. -/
def isStatement : Kind → Bool
  | unitStmt _ | endUnitStmt _ | constructStmt _ | endConstructStmt _ | ifThenStmt | elseIfStmt
  | elseStmt | endIfStmt | whereConstructStmt | elseWhereStmt | endWhereStmt | selectCaseStmt
  | caseStmt | endSelectCaseStmt | ifStmt | whereStmt | forallStmt | actionStmt | cycleStmt
  | containsStmt | assignStmt | pointerAssignStmt | callStmt | useStmt | declStmt | printStmt
  | writeStmt | namelistStmt | implicitNoneStmt | enumeratorStmt | blockDataStmt
  | endBlockDataStmt | endFileStmt | gotoStmt | saveStmt | otherStmt => true
  | _ => false

/-- Whether the children of such a node are whole statements. -/
def isContainer : Kind → Bool
  | file | programUnit | block _ | construct _ => true
  | _ => false

/-- Whether the statement separates two branches of a construct: ELSE, ELSE IF, ELSEWHERE. -/
def isInterBranch : Kind → Bool
  | elseStmt | elseIfStmt | elseWhereStmt => true
  | _ => false

/-- Whether a branch body starts after the statement. -/
def opensBranch : Kind → Bool
  | ifThenStmt | whereConstructStmt => true
  | kind => kind.isInterBranch

/-- Whether the statement ends a branch construct. -/
def closesBranch : Kind → Bool
  | endIfStmt | endWhereStmt => true
  | _ => false

/-- Whether the statement opens the body of `c`. -/
def opens (kind : Kind) (c : Construct) : Bool := kind == constructStmt c && c != .other

/-- Whether the statement closes `c`. -/
def closes (kind : Kind) (c : Construct) : Bool := kind == endConstructStmt c && c != .other

/-- Whether such a node may stand between a continuation marker and the rest of its statement. -/
def isCommentLike : Kind → Bool
  | comment | directive => true
  | _ => false

/-- Whether the text of such a node is not Fortran code. -/
def isNonCode : Kind → Bool
  | comment | directive | stringLit => true
  | _ => false

/-! ## Names of kinds -/

/-- The full name of the kind, with the unit, family or construct in parentheses. -/
def label : Kind → String
  | file => "File"
  | programUnit => "ProgramUnit"
  | unitStmt u => "UnitStmt(" ++ u.name ++ ")"
  | endUnitStmt u => "EndUnitStmt(" ++ u.name ++ ")"
  | block f => "Block(" ++ f.name ++ ")"
  | construct c => "Construct(" ++ c.name ++ ")"
  | constructStmt c => "ConstructStmt(" ++ c.name ++ ")"
  | endConstructStmt c => "EndConstructStmt(" ++ c.name ++ ")"
  | ifThenStmt => "IfThenStmt"
  | elseIfStmt => "ElseIfStmt"
  | elseStmt => "ElseStmt"
  | endIfStmt => "EndIfStmt"
  | whereConstructStmt => "WhereConstructStmt"
  | elseWhereStmt => "ElseWhereStmt"
  | endWhereStmt => "EndWhereStmt"
  | selectCaseStmt => "SelectCaseStmt"
  | caseStmt => "CaseStmt"
  | endSelectCaseStmt => "EndSelectCaseStmt"
  | ifStmt => "IfStmt"
  | whereStmt => "WhereStmt"
  | forallStmt => "ForallStmt"
  | actionStmt => "ActionStmt"
  | condition => "Condition"
  | mask => "Mask"
  | forallTriplets => "ForallTriplets"
  | cycleStmt => "CycleStmt"
  | containsStmt => "ContainsStmt"
  | assignStmt => "AssignStmt"
  | pointerAssignStmt => "PointerAssignStmt"
  | callStmt => "CallStmt"
  | useStmt => "UseStmt"
  | declStmt => "DeclStmt"
  | printStmt => "PrintStmt"
  | writeStmt => "WriteStmt"
  | namelistStmt => "NamelistStmt"
  | implicitNoneStmt => "ImplicitNoneStmt"
  | enumeratorStmt => "EnumeratorStmt"
  | blockDataStmt => "BlockDataStmt"
  | endBlockDataStmt => "EndBlockDataStmt"
  | endFileStmt => "EndFileStmt"
  | gotoStmt => "GotoStmt"
  | saveStmt => "SaveStmt"
  | otherStmt => "OtherStmt"
  | comment => "Comment"
  | directive => "Directive"
  | continuation => "Continuation"
  | separator => "Separator"
  | affectation => "Affectation"
  | opExpr => "OpExpr"
  | op => "Op"
  | opSpelling => "OpSpelling"
  | name => "Name"
  | namePart => "NamePart"
  | typeName => "TypeName"
  | attributeName => "AttributeName"
  | moduleName => "ModuleName"
  | attributeSpec => "Attribute"
  | typeSpec => "TypeSpec"
  | intrinsicTypeSpec => "IntrinsicTypeSpec"
  | intentSpec => "IntentSpec"
  | lowerBound => "LowerBound"
  | upperBound => "UpperBound"
  | doVar => "DoVar"
  | var => "Var"
  | argName => "ArgName"
  | enumeratorName => "EnumeratorName"
  | namedConstant => "NamedConstant"
  | associateName => "AssociateName"
  | literalExpr => "LiteralExpr"
  | literal => "Literal"
  | stringExpr => "StringExpr"
  | stringLit => "StringLit"
  | namedExpr => "NamedExpr"
  | refList => "RefList"
  | componentRef => "ComponentRef"
  | componentName => "ComponentName"
  | other => "Other"

/-- The kind in the manner of a tag, where it has parts. -/
def display : Kind → String
  | unitStmt u => u.keyword ++ "-stmt"
  | endUnitStmt u => "end-" ++ u.keyword ++ "-stmt"
  | block f => f.name ++ "-block"
  | construct c => c.name ++ "-construct"
  | constructStmt c => c.name ++ "-stmt"
  | endConstructStmt c => "end-" ++ c.name ++ "-stmt"
  | kind => kind.label

end Kind

end FortranLayout
