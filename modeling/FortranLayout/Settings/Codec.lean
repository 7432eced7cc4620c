import FortranLayout.Data
import FortranLayout.Text.Decimal

/-!
# Records in documents

How values of settings are read from documents and written to them. A record is a table of named
fields, each of which may be left out; or an array of the fields in their order, of which the last
ones may be left out.
-/

namespace FortranLayout

/-- The points in which notations for documents differ. -/
structure Reading where
  /-- Whether an array with more items than the record has fields is refused. -/
  refusesSurplus : Bool
  /-- Whether a date is also a text. -/
  datesAreTexts : Bool
  /-- Whether a value can stand behind a name that has no content of its own. -/
  isNoContent : Data → Bool

namespace Reading

/-- Whether a value is an empty array or table. -/
def isEmptyCollection : Data → Bool
  | .array items => items.isEmpty
  | .table fields => fields.isEmpty
  | _ => false

/-- A JSON document. -/
def json : Reading where
  refusesSurplus := true
  datesAreTexts := false
  isNoContent d := d matches .null

/-- A TOML document. -/
def toml : Reading where
  refusesSurplus := false
  datesAreTexts := false
  isNoContent := isEmptyCollection

/-- A table merged from TOML documents. -/
def mergedToml : Reading where
  refusesSurplus := true
  datesAreTexts := true
  isNoContent := isEmptyCollection

end Reading

/-- How a type is read from documents and written to them. -/
structure Codec (α : Type) where
  read : Reading → Data → Option α
  write : α → Data

namespace Codec

/-- A truth value. -/
def bool : Codec Bool where
  read _ d := match d with
    | .bool b => some b
    | _ => none
  write := .bool

/-- A natural number of at most 64 bits. -/
def nat : Codec Nat where
  read _ d := match d with
    | .integer n => if 0 ≤ n && Text.fitsWord n.toNat then some n.toNat else none
    | _ => none
  write n := .integer n

/-- A text. -/
def text : Codec String where
  read r d := match d with
    | .string s => some s
    | .date s => if r.datesAreTexts then some s else none
    | _ => none
  write := .string

/-- A list of values of one type. -/
def list {α : Type} (codec : Codec α) : Codec (List α) where
  read r d := match d with
    | .array items => items.mapM (codec.read r)
    | _ => none
  write items := .array (items.map codec.write)

/-- One of several names. The first name of a value is the one that is written. A name may also be
the only key of a table, with no content behind it. -/
def names {α : Type} [DecidableEq α] (table : List (String × α)) : Codec α where
  read r d := match d with
    | .string s => table.lookup s
    | .table [(s, content)] => if r.isNoContent content then table.lookup s else none
    | _ => none
  write a := .string (((table.find? (·.2 == a)).map (·.1)).getD "")

end Codec

/-- A field of a record. -/
structure Field (σ : Type) where
  key : String
  /-- Sets the field to what a value denotes. -/
  read : Reading → Data → σ → Option σ
  write : σ → Data

/-- The field with the given key, values and access. -/
def Codec.field {σ α : Type} (codec : Codec α) (key : String) (get : σ → α) (set : α → σ → σ) :
    Field σ where
  key := key
  read r d s := (codec.read r d).map fun a => set a s
  write s := codec.write (get s)

namespace Field

/-- Sets a field from a table, if the table has it. A field given twice is refused. -/
def readFrom {σ : Type} (r : Reading) (entries : List (String × Data)) (s : σ) (field : Field σ) :
    Option σ :=
  match Data.valuesAt field.key entries with
  | [] => some s
  | [d] => field.read r d s
  | _ => none

end Field

namespace Codec

/-- A record with the given fields, which are `standard` where they are left out. Tables with other
fields are refused. -/
def record {σ : Type} (fields : List (Field σ)) (standard : σ) : Codec σ where
  read r d := match d with
    | .table entries =>
      if entries.all fun (key, _) => fields.any (·.key == key) then
        fields.foldlM (Field.readFrom r entries) standard
      else none
    | .array items =>
      if r.refusesSurplus && fields.length < items.length then none
      else (fields.zip items).foldlM (fun s (field, d) => field.read r d s) standard
    | _ => none
  write s := .table (fields.map fun field => (field.key, field.write s))

end Codec

end FortranLayout
