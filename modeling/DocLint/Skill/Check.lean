/-
# Checking a skill

`validate_skill_dir` with `check_line_count`, `check_name`, `check_directory_name`,
`check_description` and `check_description_length`, SPEC_FULL.md §4.3.

A skill is a directory with a document in it.  The checks go from what makes
the others impossible to what each can say for itself.

| step | when it fails |
| --- | --- |
| the document is there | one diagnostic, at the directory |
| it can be read | one diagnostic |
| it is short enough | one diagnostic more |
| it has frontmatter | one diagnostic more, and no further step |
| name, directory name, description, its length | one diagnostic more for each |

Values are taken as written: quotes belong to them.
-/

import DocLint.Diagnostic
import DocLint.FileSystem
import DocLint.Frontmatter.Block
import DocLint.Name
import DocLint.Settings

namespace DocLint

namespace Skill

/-- A skill whose document has frontmatter. -/
structure Document where
  directory : Path
  file : Path
  fields : Frontmatter
  settings : SkillSettings

/-- The document must not have too many lines. -/
def checkLineCount (file : Path) (text : Text) (settings : SkillSettings) : Option Diagnostic :=
  let lines := Text.lineCount text
  if settings.maxLines < lines then
    some
      ((Diagnostic.new .warning "skill/too-long"
          (settings.fileName ++ " too long (>" ++ Text.ofNat settings.maxLines ++ " lines)")
          file).withObserved
        (Text.ofNat lines ++ " lines"))
  else none

/-- The name must be there and be valid. -/
def checkName (d : Document) : Option Diagnostic :=
  match d.fields.nonEmpty? "name" with
  | none => some (.new .blocker "skill/missing-name" "missing name in frontmatter" d.file)
  | some name =>
    if isValidName name then none
    else
      some (.new .blocker "skill/invalid-name"
        ("invalid name '" ++ name ++ "' (must match ^[a-z0-9-]\x7b1,64\x7d$)") d.file)

/-- The directory should be called by the name, where there is one. -/
def checkDirectoryName (d : Document) : Option Diagnostic :=
  match d.fields.nonEmpty? "name" with
  | none => none
  | some name =>
    let directoryName := ((Path.lastName? d.directory).map Path.display).getD []
    if directoryName = name then none
    else
      some (.new .info "skill/directory-mismatch"
        ("directory name '" ++ directoryName ++ "' differs from skill name '" ++ name ++ "'")
        d.directory)

/-- The description must be there. -/
def checkDescription (d : Document) : Option Diagnostic :=
  match d.fields.nonEmpty? "description" with
  | none =>
    some (.new .blocker "skill/missing-description" "missing description in frontmatter" d.file)
  | some _ => none

/-- The description must not have too many characters. -/
def checkDescriptionLength (d : Document) : Option Diagnostic :=
  match d.fields.nonEmpty? "description" with
  | none => none
  | some description =>
    let limit := d.settings.maxDescriptionChars
    if limit < description.length then
      some
        ((Diagnostic.new .warning "skill/description-too-long"
            ("description too long (>" ++ Text.ofNat limit ++ " chars)") d.file).withObserved
          (Text.ofNat description.length ++ " chars"))
    else none

/-- The checks of the fields, in the order of their diagnostics. -/
def checks : List (Document → Option Diagnostic) :=
  [checkName, checkDirectoryName, checkDescription, checkDescriptionLength]

/-- The broken rules that the text of a document shows. -/
def checkText (directory file : Path) (text : Text) (settings : SkillSettings) :
    List Diagnostic :=
  (checkLineCount file text settings).toList ++
    match Frontmatter.extract .preserve text with
    | none => [.new .blocker "skill/missing-frontmatter" "missing/invalid YAML frontmatter" file]
    | some fields => checks.filterMap fun check => check ⟨directory, file, fields, settings⟩

/-- The broken rules of the skill in `directory`. -/
def check (fs : FileSystem) (directory : Path) (settings : SkillSettings) : List Diagnostic :=
  let file := Path.join directory settings.documentName
  if fs.leadsSomewhere file then
    match fs.readText file with
    | .ok text => checkText directory file text settings
    | .error e => [.unreadable "skill/unreadable" file e]
  else [.new .blocker "skill/missing-skill-md" ("missing " ++ settings.fileName) directory]

end Skill

end DocLint
