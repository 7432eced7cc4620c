import FortranLayout.Data

/-!
# Tables of a TOML document

A document defines tables by headers and by dotted keys. A table may be mentioned before it is
defined, but it is defined once, and what one way of writing has defined the other may not extend.
To tell, each table remembers how it came to be.
-/

namespace FortranLayout

namespace Toml

/-- How a table came to be. -/
inductive Origin where
  /-- By a header of its own. -/
  | header
  /-- As part of the path of another table's header. -/
  | mentioned
  /-- By a dotted key. -/
  | dotted
deriving DecidableEq, Repr

/-- What a key of a table stands for. -/
inductive Item where
  | value (d : Data)
  | table (origin : Origin) (entries : List (String × Item))
  /-- An array of tables, each with a header of its own. -/
  | tables (items : List (List (String × Item)))
deriving Inhabited

/-- The entries of a table. -/
abbrev Entries := List (String × Item)

/-- Replaces what a key of the table stands for. -/
def replace (entries : Entries) (key : String) (item : Item) : Entries :=
  entries.map fun (k, i) => if k == key then (k, item) else (k, i)

/-- Gives a key of the table another meaning and puts it last. -/
def replaceLast (entries : Entries) (key : String) (item : Item) : Entries :=
  entries.filter (·.1 != key) ++ [(key, item)]

/-- Changes the table at the end of a path, which starts at a table of the given origin. Tables
missing on the way come to be by `via`. Of an array of tables the last one is meant. A table with a
header of its own is not entered by a dotted key. -/
def changeAt (via : Origin) (change : Origin → Entries → Option Entries) :
    List String → Origin → Entries → Option Entries
  | [], origin, entries => change origin entries
  | key :: path, _, entries =>
    match entries.lookup key with
    | none => (changeAt via change path via []).map fun below =>
        entries ++ [(key, .table via below)]
    | some (.value _) => none
    | some (.table origin below) =>
      if via == .dotted && origin == .header then none
      else (changeAt via change path origin below).map fun below =>
        replace entries key (.table origin below)
    | some (.tables items) =>
      match items.getLast? with
      | none => none
      | some last => (changeAt via change path .header last).map fun last =>
          replace entries key (.tables (items.dropLast ++ [last]))

/-- Defines a key, which must be new, in a table reached by a dotted key if `isDotted` says so. -/
def define (isDotted : Bool) (key : String) (d : Data) (origin : Origin) (entries : Entries) :
    Option Entries :=
  if (origin == .dotted) != isDotted || (entries.lookup key).isSome then none
  else some (entries ++ [(key, .value d)])

/-- Defines a dotted key in a table. -/
def defineKey (key : List String) (d : Data) (origin : Origin) (entries : Entries) :
    Option Entries :=
  match key.getLast? with
  | none => none
  | some last =>
    let path := key.dropLast
    changeAt .dotted (define (!path.isEmpty) last d) path origin entries

/-- Opens a table by its header. A table that was only mentioned takes its place now. -/
def openTable (path : List String) (root : Entries) : Option Entries :=
  match path.getLast? with
  | none => none
  | some last =>
    changeAt .mentioned (fun _ entries =>
      match entries.lookup last with
      | none => some (entries ++ [(last, .table .header [])])
      | some (.table .mentioned below) => some (replaceLast entries last (.table .header below))
      | some _ => none) path.dropLast .header root

/-- Opens a new table of an array of tables by its header. -/
def openArrayTable (path : List String) (root : Entries) : Option Entries :=
  match path.getLast? with
  | none => none
  | some last =>
    changeAt .mentioned (fun _ entries =>
      match entries.lookup last with
      | none => some (entries ++ [(last, .tables [[]])])
      | some (.tables items) => some (replace entries last (.tables (items ++ [[]])))
      | some _ => none) path.dropLast .header root

mutual

/-- The value of an item. -/
def Item.toData : Item → Data
  | .value d => d
  | .table _ entries => .table (entriesToData entries)
  | .tables items => .array (tablesToData items)

/-- The fields of a table. -/
def entriesToData : List (String × Item) → List (String × Data)
  | [] => []
  | (key, item) :: entries => (key, item.toData) :: entriesToData entries

/-- The values of an array of tables. -/
def tablesToData : List (List (String × Item)) → List Data
  | [] => []
  | entries :: items => .table (entriesToData entries) :: tablesToData items

end

end Toml

end FortranLayout
