import FortranLayout.Settings.Basic
import FortranLayout.Settings.Codec

/-!
# The fields of settings

The keys under which settings are written in documents, and their values.
-/

namespace FortranLayout

open Codec (bool nat text list)

/-! ## Widths -/

/-- A width: a number of blanks, or the word `keep` in either case. -/
def Width.codec : Codec Width where
  read r d := match d with
    | .string s => if s.toList.map Char.toLower = "keep".toList then some .keep else none
    | _ => (nat.read r d).map .exactly
  write w := match w with
    | .keep => .string "keep"
    | .exactly n => .integer n

/-- Enters an override in the order of the keys. -/
def insertOverride (key : String) (w : Width) : List (String × Width) → List (String × Width)
  | [] => [(key, w)]
  | (k, v) :: rest =>
    if key < k then (key, w) :: (k, v) :: rest
    else if key = k then (key, w) :: rest
    else (k, v) :: insertOverride key w rest

/-- The widths of a keyword table: a table with the field `enabled`, whose other fields are
overrides. -/
def KeywordWidths.codec : Codec KeywordWidths where
  read r d := match d with
    | .table entries =>
      entries.foldlM (fun w (key, d) =>
        if key = "enabled" then (bool.read r d).map fun b => { w with enabled := b }
        else (Width.codec.read r d).map fun width =>
          { w with overrides := insertOverride key width w.overrides }) {}
    | _ => none
  write w := .table (("enabled", .bool w.enabled) ::
    w.overrides.map fun (key, width) => (key, Width.codec.write width))

/-- A width of the spacing rules. -/
def widthField (key : String) (get : SpacingRules → Width)
    (set : Width → SpacingRules → SpacingRules) : Field SpacingRules :=
  Width.codec.field key get set

/-- A switch of the spacing rules. -/
def switchField (key : String) (get : SpacingRules → Bool)
    (set : Bool → SpacingRules → SpacingRules) : Field SpacingRules :=
  bool.field key get set

/-- The fields of the spacing rules. -/
def SpacingRules.fields : List (Field SpacingRules) :=
  [widthField "before_op" (·.beforeOp) fun w r => { r with beforeOp := w },
   widthField "after_op" (·.afterOp) fun w r => { r with afterOp := w },
   switchField "in_operator" (·.inOperator) fun b r => { r with inOperator := b },
   widthField "before_comma" (·.beforeComma) fun w r => { r with beforeComma := w },
   widthField "after_comma" (·.afterComma) fun w r => { r with afterComma := w },
   widthField "before_parenthesis" (·.beforeParenthesis) fun w r =>
     { r with beforeParenthesis := w },
   widthField "after_parenthesis" (·.afterParenthesis) fun w r => { r with afterParenthesis := w },
   widthField "before_affectation" (·.beforeAffectation) fun w r =>
     { r with beforeAffectation := w },
   widthField "after_affectation" (·.afterAffectation) fun w r => { r with afterAffectation := w },
   switchField "in_affectation" (·.inAffectation) fun b r => { r with inAffectation := b },
   widthField "before_range_delim" (·.beforeRangeDelim) fun w r => { r with beforeRangeDelim := w },
   widthField "after_range_delim" (·.afterRangeDelim) fun w r => { r with afterRangeDelim := w },
   widthField "before_use_delim" (·.beforeUseDelim) fun w r => { r with beforeUseDelim := w },
   widthField "after_use_delim" (·.afterUseDelim) fun w r => { r with afterUseDelim := w },
   widthField "before_decl_delim" (·.beforeDeclDelim) fun w r => { r with beforeDeclDelim := w },
   widthField "after_decl_delim" (·.afterDeclDelim) fun w r => { r with afterDeclDelim := w },
   switchField "in_decl_delim" (·.inDeclDelim) fun b r => { r with inDeclDelim := b },
   widthField "after_type_decl" (·.afterTypeDecl) fun w r => { r with afterTypeDecl := w },
   widthField "before_eq_do" (·.beforeEqDo) fun w r => { r with beforeEqDo := w },
   widthField "after_eq_do" (·.afterEqDo) fun w r => { r with afterEqDo := w },
   widthField "before_eq_call" (·.beforeEqCall) fun w r => { r with beforeEqCall := w },
   widthField "after_eq_call" (·.afterEqCall) fun w r => { r with afterEqCall := w },
   widthField "before_eq_init" (·.beforeEqInit) fun w r => { r with beforeEqInit := w },
   widthField "after_eq_init" (·.afterEqInit) fun w r => { r with afterEqInit := w },
   widthField "before_endcnt" (·.beforeEndMarker) fun w r => { r with beforeEndMarker := w },
   widthField "after_begincnt" (·.afterBeginMarker) fun w r => { r with afterBeginMarker := w },
   widthField "after_ifwherecase" (·.afterConditional) fun w r => { r with afterConditional := w },
   widthField "before_then" (·.beforeThen) fun w r => { r with beforeThen := w },
   widthField "before_ifaction" (·.beforeAction) fun w r => { r with beforeAction := w },
   widthField "after_progunit" (·.afterProgramUnit) fun w r => { r with afterProgramUnit := w },
   switchField "end_of_line" (·.endOfLine) fun b r => { r with endOfLine := b },
   widthField "after_name" (·.afterName) fun w r => { r with afterName := w },
   switchField "in_name" (·.inName) fun b r => { r with inName := b },
   widthField "before_cmdsep" (·.beforeSeparator) fun w r => { r with beforeSeparator := w },
   widthField "after_cmdsep" (·.afterSeparator) fun w r => { r with afterSeparator := w },
   switchField "expand_tabs" (·.expandTabs) fun b r => { r with expandTabs := b },
   KeywordWidths.codec.field "adjacent_keywords" (·.adjacentKeywords) fun w r =>
     { r with adjacentKeywords := w },
   KeywordWidths.codec.field "after_keywords" (·.afterKeywords) fun w r =>
     { r with afterKeywords := w }]

/-- The spacing rules, which are `standard` where nothing is said. -/
def SpacingRules.codec (standard : SpacingRules) : Codec SpacingRules :=
  .record SpacingRules.fields standard

/-! ## The other settings -/

/-- The settings of the indentation. -/
def IndentParams.codec : Codec IndentParams :=
  .record
    [nat.field "program_unit" (·.programUnit) fun n p => { p with programUnit := n },
     nat.field "branch" (·.branch) fun n p => { p with branch := n },
     (list text).field "excluded_directives" (·.excludedDirectives) fun ds p =>
       { p with excludedDirectives := ds }]
    {}

/-- The settings of the comment removal. -/
def CommentOptions.codec : Codec CommentOptions :=
  .record
    [(list text).field "excluded_directives" (·.excludedDirectives) fun ds o =>
      { o with excludedDirectives := ds }]
    {}

/-- The options for continuation markers. -/
def MarkerOptions.codec : Codec MarkerOptions :=
  .record
    [bool.field "align" (·.align) fun b o => { o with align := b },
     bool.field "remove_all" (·.removeAll) fun b o => { o with removeAll := b },
     bool.field "add_begin" (·.addBegin) fun b o => { o with addBegin := b },
     bool.field "remove_begin" (·.removeBegin) fun b o => { o with removeBegin := b }]
    {}

/-- What to do with the case of letters. -/
def CaseMode.codec : Codec CaseMode :=
  .names [("nochange", .keep), ("keep", .keep), ("lower", .lower), ("upper", .upper)]

/-- Which passes run. -/
def Passes.codec : Codec Passes :=
  .record
    [bool.field "remove_comments" (·.removeComments) fun b p => { p with removeComments := b },
     bool.field "convert_if_statements" (·.convertIfStatements) fun b p =>
       { p with convertIfStatements := b },
     bool.field "remove_empty_contains" (·.removeEmptyContains) fun b p =>
       { p with removeEmptyContains := b },
     bool.field "remove_empty_lines" (·.removeEmptyLines) fun b p =>
       { p with removeEmptyLines := b },
     bool.field "spacing" (·.spacing) fun b p => { p with spacing := b },
     bool.field "indent" (·.indent) fun b p => { p with indent := b },
     bool.field "continuation" (·.continuation) fun b p => { p with continuation := b },
     CaseMode.codec.field "case" (·.case) fun c p => { p with case := c }]
    {}

/-- All settings. -/
def Settings.codec : Codec Settings :=
  .record
    [Passes.codec.field "passes" (·.passes) fun p s => { s with passes := p },
     IndentParams.codec.field "indent" (·.indent) fun p s => { s with indent := p },
     CommentOptions.codec.field "comments" (·.comments) fun o s => { s with comments := o },
     MarkerOptions.codec.field "continuation" (·.continuation) fun o s =>
       { s with continuation := o },
     (SpacingRules.codec {}).field "spacing" (·.spacing) fun r s => { s with spacing := r }]
    {}

end FortranLayout
