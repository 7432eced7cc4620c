/-!
# Data

The values that documents hold: settings are read from them, in whichever notation they were
written.
-/

namespace FortranLayout

/-- A value of a document. -/
inductive Data where
  | null
  | bool (b : Bool)
  | integer (n : Int)
  /-- A number that is no integer; nothing here depends on which. -/
  | real
  | string (s : String)
  /-- A date, a time or both, in its standard spelling. -/
  | date (s : String)
  /-- A string, or an object with a key, that is not Unicode text. -/
  | unreadable
  | array (items : List Data)
  | table (fields : List (String × Data))
deriving Repr, Inhabited

namespace Data

/-- The values that a table has under a key. -/
def valuesAt (key : String) (fields : List (String × Data)) : List Data :=
  (fields.filter (·.1 == key)).map (·.2)

end Data

end FortranLayout
