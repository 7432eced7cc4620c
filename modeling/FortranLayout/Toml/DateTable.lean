import FortranLayout.Toml.Scalar

/-!
# Tables that stand for dates

A date can also be given as a table: its first key is `dateKey` and stands for the text of the date.
What else the table holds does not count. In a document that is merged with others such tables are
dates; the outermost table is never one.
-/

namespace FortranLayout

namespace Toml

/-- The key that makes a table a date. -/
def dateKey : String := "$__toml_private_datetime"

/-- Whether a table with the given fields stands for a date. -/
def isDateTable (fields : List (String × Data)) : Bool :=
  match fields with
  | (key, _) :: _ => key == dateKey
  | [] => false

/-- The date that a table stands for. It must be given as a text. -/
def dateOf? : List (String × Data) → Option Data
  | (_, .string s) :: _ => dateTime? s.toList
  | _ => none

mutual

/-- A value with dates in place of the tables that stand for them. -/
def resolveDates? : Data → Option Data
  | .array items => (resolveItems? items).map .array
  | .table fields =>
    if isDateTable fields then dateOf? fields else (resolveFields? fields).map .table
  | d => some d

/-- The items of an array with dates in place of tables. -/
def resolveItems? : List Data → Option (List Data)
  | [] => some []
  | d :: items =>
    match resolveDates? d, resolveItems? items with
    | some d, some items => some (d :: items)
    | _, _ => none

/-- The fields of a table with dates in place of tables. -/
def resolveFields? : List (String × Data) → Option (List (String × Data))
  | [] => some []
  | (key, d) :: fields =>
    match resolveDates? d, resolveFields? fields with
    | some d, some fields => some ((key, d) :: fields)
    | _, _ => none

end

end Toml

end FortranLayout
