import FortranLayout.Fault
import FortranLayout.Forest.Basic
import FortranLayout.Text.CaseMap
import FortranLayout.Text.Pattern

/-!
# Expression nodes

The elements of simple expressions: a number, a logical constant, a string, a name and a component
reference `A%B`. Anything else needs the parser. Building a node for an expression enters the
element into the store, the parts of a node before the node, and attaches it nowhere.
-/

namespace FortranLayout

namespace Expression

/-! ## Recognizing expressions -/

/-- What follows an optional sign. -/
def dropSign : List Char → List Char
  | '+' :: s => s
  | '-' :: s => s
  | s => s

/-- Whether the text is an exponent, or empty. -/
def isExponent : List Char → Bool
  | [] => true
  | c :: s =>
    let digits := dropSign s
    (c == 'e' || c == 'E') && !digits.isEmpty && digits.all Char.isDigit

/-- Whether the text is a decimal number without a sign: digits, with a point before, among or after
them, and an exponent. -/
def isDecimal (s : List Char) : Bool :=
  let whole := s.takeWhile Char.isDigit
  match s.dropWhile Char.isDigit with
  | '.' :: rest =>
    let fraction := rest.takeWhile Char.isDigit
    !(whole.isEmpty && fraction.isEmpty) && isExponent (rest.dropWhile Char.isDigit)
  | rest => !whole.isEmpty && isExponent rest

/-- Whether the text is the name of an infinity or of an undefined number, in either case. -/
def isSpecialNumber (s : List Char) : Bool :=
  ["inf", "infinity", "nan"].any fun name => s.map Char.toLower == name.toList

/-- Whether the text is a number. The special numbers are names unless they have a sign. -/
def isNumber (s : List Char) : Bool :=
  match s with
  | '+' :: rest => isDecimal rest || isSpecialNumber rest
  | '-' :: rest => isDecimal rest || isSpecialNumber rest
  | _ => isDecimal s

/-- Whether the text is a logical constant. -/
def isLogical (s : List Char) : Bool :=
  let upper := Text.toUpper s
  upper == ".TRUE.".toList || upper == ".FALSE.".toList

/-- Whether the text has a quote. -/
def isQuoted (s : List Char) : Bool := s.contains '\x27' || s.contains '\x22'

/-- Whether the text is made of ASCII letters, digits and underscores only. -/
def isName (s : List Char) : Bool := !s.isEmpty && s.all fun c => c.isAlphanum || c == '_'

/-- Whether the text is an identifier, which does not begin with a digit. -/
def isIdentifier (s : List Char) : Bool :=
  s.head?.any (fun c => Text.isLetter c || c == '_') &&
    s.all fun c => Text.isLetter c || c.isDigit || c == '_'

/-- The two identifiers of a component reference. -/
def component? (s : List Char) : Option (List Char × List Char) :=
  match s.span (· != '%') with
  | (base, '%' :: part) =>
    if isIdentifier base && isIdentifier part then some (base, part) else none
  | _ => none

/-! ## Their elements -/

/-- The element of a name. -/
def nameElement (s : String) : Element := { tag := "N", children := [{ tag := "n", text := s }] }

/-- The element of a component reference. -/
def componentElement (base part : String) : Element :=
  let reference : Element :=
    { tag := "component-R", text := "%", children := [{ tag := "ct", text := part }] }
  { tag := "named-E", children := [nameElement base, { tag := "R-LT", children := [reference] }] }

/-- The element of an expression. -/
def element? (value : String) : Except Fault Element :=
  let s := value.toList
  if isNumber s || isLogical s then
    .ok { tag := "literal-E", children := [{ tag := "l", text := value }] }
  else if isQuoted s then
    .ok { tag := "string-E", children := [{ tag := "S", text := value }] }
  else if isName s then .ok { tag := "named-E", children := [nameElement value] }
  else
    match component? s with
    | some (base, part) => .ok (componentElement (String.ofList base) (String.ofList part))
    | none => .error (.unsupported .needsParser value)

end Expression

namespace Forest

mutual

/-- Enters an element into the store, each node after its children, and attaches it nowhere. -/
def addBottomUp (f : Forest) : Element → Forest × NodeId
  | ⟨tag, text, tail, es⟩ =>
    let (f, children) := f.addAllBottomUp es
    (f.add { tag, text, tail, children }, f.size)

/-- Enters elements into the store one after another. -/
def addAllBottomUp (f : Forest) : List Element → Forest × List NodeId
  | [] => (f, [])
  | e :: es =>
    let (f, i) := f.addBottomUp e
    let (f, is) := f.addAllBottomUp es
    (f, i :: is)

end

/-- Builds the node of an expression. Where the expression is refused the store stays as it is. -/
def buildExpression (f : Forest) (value : String) : Forest × Except Fault NodeId :=
  match Expression.element? value with
  | .error fault => (f, .error fault)
  | .ok e =>
    let (f, i) := f.addBottomUp e
    (f.dropIndex, .ok i)

end Forest

/-! ## Bounds -/

/-- Where a pair of bounds is used. -/
inductive BoundsContext where
  | doLoop
  | doConcurrent
  | array
deriving DecidableEq, Repr

/-- What stands between the two bounds. -/
def BoundsContext.separator : BoundsContext → String
  | doLoop => ", "
  | doConcurrent | array => ":"

/-- Builds the nodes of a lower and an upper bound. The nodes of the lower expression stay in the
store even when the upper one is refused. -/
def Forest.buildBounds (f : Forest) (lower upper : String) (context : BoundsContext) :
    Forest × Except Fault (NodeId × NodeId) :=
  match f.buildExpression lower with
  | (f, .error fault) => (f, .error fault)
  | (f, .ok low) =>
    match f.buildExpression upper with
    | (f, .error fault) => (f, .error fault)
    | (f, .ok high) =>
      let lowerBound : Node :=
        { tag := "lower-bound", tail := context.separator, children := [low] }
      let upperBound : Node := { tag := "upper-bound", children := [high] }
      ((f.add lowerBound).add upperBound, .ok (f.size, f.size + 1))

end FortranLayout
