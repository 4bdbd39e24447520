/-
# Settings

The settings with their defaults and `root_for`, SPEC_FULL.md §10.7.

Where documents are looked for and what they may measure, with the values that
hold where nothing else is said.

| setting | default |
| --- | --- |
| root of prompts | `.github/prompts` |
| suffix of prompt files | `.prompt.md` |
| root of skills | `.github/skills` |
| name of a skill's document | `SKILL.md` |
| longest document | 500 lines |
| longest description | 1024 characters |
-/

import DocLint.Kind
import DocLint.Path

namespace DocLint

/-- The directory of prompts that is looked through when no other is named. -/
def defaultPromptsRoot : Text := ".github/prompts"

/-- The directory of skills that is looked through when no other is named. -/
def defaultSkillsRoot : Text := ".github/skills"

/-- The settings for prompts. -/
structure PromptSettings where
  /-- The directory that is looked through. -/
  root : Path := Utf8.encode defaultPromptsRoot
  /-- What the name of a prompt file ends with. -/
  suffix : Text := ".prompt.md"
deriving Repr, DecidableEq

/-- The settings for skills. -/
structure SkillSettings where
  /-- The directory that is looked through. -/
  root : Path := Utf8.encode defaultSkillsRoot
  /-- The document that every skill directory must hold. -/
  fileName : Text := "SKILL.md"
  /-- The most lines that a document may have. -/
  maxLines : Nat := 500
  /-- The most characters that a description may have. -/
  maxDescriptionChars : Nat := 1024
deriving Repr, DecidableEq

/-- The name of a skill's document, as it stands in a directory. -/
def SkillSettings.documentName (s : SkillSettings) : Bytes := Utf8.encode s.fileName

/-- The settings of a run. -/
structure Settings where
  prompts : PromptSettings := {}
  skills : SkillSettings := {}
deriving Repr, DecidableEq

/-- The root to look through for documents of a kind. -/
def Settings.rootFor (s : Settings) : Kind → Path
  | .prompt => s.prompts.root
  | .skill => s.skills.root

end DocLint
