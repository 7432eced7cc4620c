import FortranLayout.Environment
import FortranLayout.Settings.Load

/-!
# Finding settings

Settings files are looked for in the home directory and then in every directory on the way to the
file that is normalized, so that the settings closest to a file win.
-/

namespace FortranLayout

namespace Settings

/-- The name of a settings file. -/
def fileName : String := "ftidy.toml"

end Settings

namespace Environment

/-- The directory from which to look for the settings of a path. For a path that leads nowhere it is
the directory in which the run takes place. -/
def searchStart (e : Environment) (path : Path) : Path :=
  if e.isFile path then path.parent
  else if (e.directory? path).isSome then path
  else e.herePath

/-- Where settings files may be, the closest one last. -/
def candidates (e : Environment) (path : Path) : List Path :=
  (e.searchStart path).ancestors.map (·.join Settings.fileName)

/-- The settings files for a path: that of the home directory, and those on the way to the path,
each once. -/
def settingsFiles (e : Environment) (path : Path) : List Path :=
  let home := (e.home.toList.map (·.join Settings.fileName)).filter e.isFile
  (e.candidates path).foldl
    (fun found p => if e.isFile p && !found.any p.agrees then found ++ [p] else found) home

/-- The settings that are found for a path. -/
def findSettings? (e : Environment) (path : Path) : Option Settings :=
  Settings.ofTomls? ((e.settingsFiles path).filterMap e.read?)

end Environment

end FortranLayout
