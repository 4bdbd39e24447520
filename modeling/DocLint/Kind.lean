/-
# Kinds of documents

`DocumentKind` with `label` and `command_name`, SPEC_FULL.md §10.3.

Prompts are files, skills are directories with one document in each.  Each kind
has a command of its own.
-/

import DocLint.Text

namespace DocLint

/-- What a run looks at. -/
inductive Kind
  | prompt
  | skill
deriving Repr, DecidableEq

namespace Kind

/-- The kind in reports. -/
def name : Kind → Text
  | .prompt => "prompt"
  | .skill => "skill"

/-- The kind in messages. -/
def label : Kind → Text
  | .prompt => "prompts"
  | .skill => "skills"

/-- The command that validates the kind. -/
def commandName : Kind → Text
  | .prompt => "validate-prompts"
  | .skill => "validate-skills"

end Kind

end DocLint
