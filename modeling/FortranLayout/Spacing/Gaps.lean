import FortranLayout.Spacing.Rules

/-!
# The gaps that spacing rules set

The edits of a single text from which the spacing pass is built. Each of them changes blanks only.
-/

namespace FortranLayout

namespace Gaps

open Text (Piece Pattern)

/-- `n` blanks before every `c`. -/
def before (c : Char) (n : Nat) : Pattern := [.gap 0 (some n), .char c]

/-- `n` blanks after every `c`. -/
def after (c : Char) (n : Nat) : Pattern := [.char c, .gap 0 (some n)]

/-- No blanks between an `a` and the `b` after it. -/
def joined (a b : Char) : Pattern := [.char a, .gap 0 (some 0), .char b]

/-- `n` blanks before a double colon, which may be written with blanks inside. -/
def beforeDoubleColon (n : Nat) : Pattern :=
  [.gap 0 (some n), .char ':', .gap 0 none, .char ':']

/-- `n` blanks after a double colon, which may be written with blanks inside. -/
def afterDoubleColon (n : Nat) : Pattern :=
  [.char ':', .gap 0 none, .char ':', .gap 0 (some n)]

/-- `n` blanks between a closing parenthesis and the letters that end the text. -/
def closingThenWord (n : Nat) : Pattern := [.char ')', .gap 0 (some n), .letters, .textEnd]

/-- `n` blanks after a closing parenthesis that ends the text. -/
def closingAtEnd (n : Nat) : Pattern := [.char ')', .gap 0 (some n), .textEnd]

/-- `n` blanks before every parenthesis. -/
def beforeParentheses (n : Nat) (s : List Char) : List Char :=
  (before ')' n).everywhere ((before '(' n).everywhere s)

/-- `n` blanks after every parenthesis. -/
def afterParentheses (n : Nat) (s : List Char) : List Char :=
  (after ')' n).everywhere ((after '(' n).everywhere s)

/-- The blanks in and around the double colons of declarations and enumerators. -/
def declDelim (r : SpacingRules) (s : List Char) : List Char :=
  let s := if r.inDeclDelim then (joined ':' ':').everywhere s else s
  let s := match r.beforeDeclDelim with
    | .exactly n => (beforeDoubleColon n).everywhere s
    | .keep => s
  match r.afterDeclDelim with
  | .exactly n => (afterDoubleColon n).everywhere s
  | .keep => s

/-- Whether a text has an arrow `=>` written without blanks. -/
def hasArrow : List Char → Bool
  | x :: y :: rest => (x == '=' && y == '>') || hasArrow (y :: rest)
  | _ => false

end Gaps

end FortranLayout
