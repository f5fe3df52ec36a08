/-
Themes in files: YAML records of which every entry may be left out.
-/
import TermMarkup.File
import TermMarkup.Yaml.Record

namespace TermMarkup

/-- Why a theme does not load. -/
inductive ThemeError where
  | unreadable (path : String) (fault : FileFault)
  | invalid (failure : Yaml.Failure)
  deriving DecidableEq, Repr

def ThemeError.message : ThemeError → String
  | unreadable path fault => "failed to read theme file `" ++ path ++ "`: " ++ fault.message
  | invalid failure => "invalid theme: " ++ failure.message

namespace Theme

/-- The theme in a YAML text. A fault of the text counts only once the data before it is read. -/
def ofYaml (text : String) : Except Yaml.Failure Theme := do
  let document := Yaml.Document.ofText text
  let (theme, _) ← (Record.theme document.source "").run 0
  match document.fault with
  | some fault => throw (.malformed fault)
  | none => return theme

/-- The theme in a file, by a reader of themes. -/
def ofFile {m : Type → Type} [Monad m] (files : FileSystem m) (path : String)
    (read : String → Except Yaml.Failure Theme := ofYaml) : m (Except ThemeError Theme) := do
  match ← files.read path with
  | .error fault => return .error (.unreadable path fault)
  | .ok text => return (read text).mapError .invalid

end Theme

end TermMarkup
