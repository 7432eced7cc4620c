import FortranLayout.Settings.Fields
import FortranLayout.Toml.DateTable
import FortranLayout.Toml.Merge
import FortranLayout.Toml.Parser

/-!
# Settings from TOML

Settings are read from one document, or from several merged in order. Of several documents those
that are not TOML, or hold a date that is none, are passed over; a merged table with a wrong value
is refused.
-/

namespace FortranLayout

namespace Settings

/-- The settings that a TOML document holds. -/
def ofToml? (text : String) : Option Settings :=
  (Toml.parse text).bind fun fields => Settings.codec.read .toml (.table fields)

/-- The fields of a TOML document that is to be merged with others. -/
def fieldsToMerge? (text : String) : Option (List (String × Data)) :=
  (Toml.parse text).bind Toml.resolveFields?

/-- The settings that several TOML documents hold together, the last of them winning. -/
def ofTomls? (texts : List String) : Option Settings :=
  Settings.codec.read .mergedToml (.table (Toml.mergeAll (texts.filterMap fieldsToMerge?)))

end Settings

end FortranLayout
