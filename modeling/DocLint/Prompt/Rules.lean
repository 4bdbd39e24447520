/-
# The rules for prompts

The rules that are listed for prompts, SPEC_FULL.md §10.3.

| id | severity | broken when |
| --- | --- | --- |
| `prompt/missing-frontmatter` | P0 | no metadata block opens the file |
| `prompt/missing-name` | P0 | `name` is absent or empty |
| `prompt/invalid-name` | P0 | `name` is no valid name |
| `prompt/missing-description` | P0 | `description` is absent or empty |
| `prompt/no-input-variables` | P1 | the file has no input variable |
| `prompt/single-input-variable` | P2 | the file has one |
| `prompt/no-output-section` | P2 | no output is spoken of |
| `prompt/unreadable` | P0 | the file cannot be read |
-/

import DocLint.Rule

namespace DocLint

namespace Prompt

/-- No other rule is looked at where there is no metadata block, so this diagnostic stands
alone. -/
def missingFrontmatter : Rule where
  id := "prompt/missing-frontmatter"
  severity := .blocker
  kind := .prompt
  message := "missing/invalid YAML frontmatter"
  remediation := "Start the file with a '---' line, add 'name:' and 'description:', and close the block with '---'"

/-- Quotes around a name are taken off first, so two quotes with nothing between them count as
no name. -/
def missingName : Rule where
  id := "prompt/missing-name"
  severity := .blocker
  kind := .prompt
  message := "frontmatter has no 'name'"
  remediation := "Add 'name: <lowercase-kebab-case>' to the frontmatter"

/-- What is checked is the name without the quotes around it. -/
def invalidName : Rule where
  id := "prompt/invalid-name"
  severity := .blocker
  kind := .prompt
  message := "'name' must match ^[a-z0-9-]\x7b1,64\x7d$"
  remediation := "Use 1-64 lowercase letters, digits, or hyphens (e.g. 'review-pr')"

/-- An empty description counts as none, with or without quotes around it. -/
def missingDescription : Rule where
  id := "prompt/missing-description"
  severity := .blocker
  kind := .prompt
  message := "frontmatter has no 'description'"
  remediation := "Add a one-line 'description:' to the frontmatter"

/-- Variables are looked for in the whole text, in the frontmatter too. -/
def noInputVariables : Rule where
  id := "prompt/no-input-variables"
  severity := .warning
  kind := .prompt
  message := "no $\x7binput:...\x7d variables found (hard to reuse)"
  remediation := "Parameterize the prompt with $\x7binput:name\x7d variables"

/-- One variable is better than none, so this is the weaker of the two remarks; a variable that
is named twice counts twice. -/
def singleInputVariable : Rule where
  id := "prompt/single-input-variable"
  severity := .info
  kind := .prompt
  message := "only one $\x7binput:...\x7d variable found"
  remediation := "Consider exposing two or more $\x7binput:...\x7d variables"

/-- The markers are looked for in the whole text, in the frontmatter too. -/
def noOutputSection : Rule where
  id := "prompt/no-output-section"
  severity := .info
  kind := .prompt
  message := "no explicit output format section found"
  remediation := "Add an 'Output' section describing the expected response format"

/-- The file is there, but its bytes are not to be had; bytes that are no UTF-8 are read all the
same. -/
def unreadable : Rule where
  id := "prompt/unreadable"
  severity := .blocker
  kind := .prompt
  message := "prompt file could not be read"
  remediation := "Check file permissions"

/-- The rules for prompts, in the order in which they are listed. -/
def catalogue : List Rule :=
  [missingFrontmatter, missingName, invalidName, missingDescription, noInputVariables,
    singleInputVariable, noOutputSection, unreadable]

end Prompt

end DocLint
