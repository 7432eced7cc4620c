import FortranLayout.Data

/-!
# Merging tables

A table laid over another sets the keys that it has. Where both have a table under a key, these are
merged in turn; otherwise the overlay wins.
-/

namespace FortranLayout

namespace Toml

/-- Sets a key of a table. -/
def setKey (key : String) (d : Data) : List (String × Data) → List (String × Data)
  | [] => [(key, d)]
  | (k, v) :: rest => if k = key then (key, d) :: rest else (k, v) :: setKey key d rest

mutual

/-- What a key stands for once `overlay` has been laid over what it stood for. -/
def mergeValue (base : Option Data) : Data → Data
  | .table overlay =>
    match base with
    | some (.table fields) => .table (mergeTables fields overlay)
    | _ => .table overlay
  | overlay => overlay

/-- A table with another laid over it. -/
def mergeTables (base : List (String × Data)) : List (String × Data) → List (String × Data)
  | [] => base
  | (key, d) :: overlay => mergeTables (setKey key (mergeValue (base.lookup key) d) base) overlay

end

/-- The tables laid over one another, the last on top. -/
def mergeAll (tables : List (List (String × Data))) : List (String × Data) :=
  tables.foldl mergeTables []

end Toml

end FortranLayout
