/-
# Loading settings

`load`, SPEC_FULL.md §10.7.

| path | leads somewhere | settings |
| --- | --- | --- |
| given | yes | those of the file there |
| given | no | an error |
| not given | `authoring-lint.toml` does | those of that file |
| not given | `authoring-lint.toml` does not | the defaults |
-/

import DocLint.FileSystem
import DocLint.Settings.Document

namespace DocLint

/-- Why settings cannot be loaded. -/
inductive SettingsError
  | notFound (path : Path)
  | unreadable (path : Path) (cause : FileError)
  | malformed (path : Path)
deriving Repr, DecidableEq

/-- The text of a settings error; `reason` is what the TOML reader says of a
document that it refuses. -/
def SettingsError.message (reason : Text) : SettingsError → Text
  | .notFound path => "config file not found: " ++ path.display
  | .unreadable path cause => "failed to read config " ++ path.display ++ ": " ++ cause.message
  | .malformed path => "failed to parse config " ++ path.display ++ ": " ++ reason

namespace Settings

/-- The settings file of a working directory. -/
def defaultPath : Path := "authoring-lint.toml"

/-- The settings in the file that `path` leads to. -/
def read (fs : FileSystem) (path : Path) : Except SettingsError Settings :=
  match fs.readUtf8 path with
  | .error e => .error (.unreadable path e)
  | .ok document =>
    match parse? document with
    | some settings => .ok settings
    | none => .error (.malformed path)

/-- The settings of a run. -/
def load (fs : FileSystem) : Option Path → Except SettingsError Settings
  | some path => if fs.leadsSomewhere path then read fs path else .error (.notFound path)
  | none => if fs.leadsSomewhere defaultPath then read fs defaultPath else .ok {}

end Settings

end DocLint
