/-
# The rules for skills

The rules that are listed for skills, SPEC_FULL.md §10.3.

| id | severity | broken when |
| --- | --- | --- |
| `skill/missing-skill-md` | P0 | the directory has no skill document |
| `skill/too-long` | P1 | the document has too many lines |
| `skill/missing-frontmatter` | P0 | no metadata block opens the document |
| `skill/missing-name` | P0 | `name` is absent or empty |
| `skill/invalid-name` | P0 | `name` is no valid name |
| `skill/directory-mismatch` | P2 | the directory is not called by the name |
| `skill/missing-description` | P0 | `description` is absent or empty |
| `skill/description-too-long` | P1 | `description` has too many characters |
| `skill/unreadable` | P0 | the document cannot be read |
-/

import DocLint.Rule

namespace DocLint

namespace Skill

/-- A directory below the root counts as a skill whether or not it has a document; without one,
nothing else of it is looked at. -/
def missingDocument : Rule where
  id := "skill/missing-skill-md"
  severity := .blocker
  kind := .skill
  message := "skill directory has no SKILL.md"
  remediation := "Create SKILL.md with 'name' and 'description' frontmatter, or remove the directory"

/-- The listed message names the limit that holds where the settings give no other. -/
def tooLong : Rule where
  id := "skill/too-long"
  severity := .warning
  kind := .skill
  message := "SKILL.md exceeds 500 lines"
  remediation := "Move reference material into separate files and link to them"

/-- No field can be checked without a metadata block, so this is the last diagnostic of its
document. -/
def missingFrontmatter : Rule where
  id := "skill/missing-frontmatter"
  severity := .blocker
  kind := .skill
  message := "missing/invalid YAML frontmatter"
  remediation := "Start SKILL.md with a '---' line, add 'name:' and 'description:', and close the block with '---'"

/-- The name is taken as written, so an empty one counts as none and a quoted one does not. -/
def missingName : Rule where
  id := "skill/missing-name"
  severity := .blocker
  kind := .skill
  message := "frontmatter has no 'name'"
  remediation := "Add 'name: <lowercase-kebab-case>' to the frontmatter"

/-- A quoted name breaks this rule, since the quotes belong to the value of a skill. -/
def invalidName : Rule where
  id := "skill/invalid-name"
  severity := .blocker
  kind := .skill
  message := "'name' must match ^[a-z0-9-]\x7b1,64\x7d$"
  remediation := "Use 1-64 lowercase letters, digits, or hyphens, unquoted (e.g. 'pdf-forms')"

/-- A skill is looked up by its directory, and so this diagnostic stands at the directory and
not at the document. -/
def directoryMismatch : Rule where
  id := "skill/directory-mismatch"
  severity := .info
  kind := .skill
  message := "directory name differs from skill name"
  remediation := "Rename the directory to match the 'name' field"

/-- An empty description counts as none. -/
def missingDescription : Rule where
  id := "skill/missing-description"
  severity := .blocker
  kind := .skill
  message := "frontmatter has no 'description'"
  remediation := "Add a 'description:' saying what the skill does and when to use it"

/-- Characters are counted and not bytes; the listed message names the limit that holds where
the settings give no other. -/
def descriptionTooLong : Rule where
  id := "skill/description-too-long"
  severity := .warning
  kind := .skill
  message := "description exceeds 1024 characters"
  remediation := "Shorten the description to 1024 characters or fewer"

/-- The document is there, but its bytes are not to be had; bytes that are no UTF-8 are read all
the same. -/
def unreadable : Rule where
  id := "skill/unreadable"
  severity := .blocker
  kind := .skill
  message := "SKILL.md could not be read"
  remediation := "Check file permissions"

/-- The rules for skills, in the order in which they are listed. -/
def catalogue : List Rule :=
  [missingDocument, tooLong, missingFrontmatter, missingName, invalidName, directoryMismatch,
    missingDescription, descriptionTooLong, unreadable]

end Skill

end DocLint
