/-
# Checking a prompt

`validate_prompt` with `check_name`, `check_description`, `check_input_variables` and
`check_output_section`, SPEC_FULL.md §4.2.

A prompt without frontmatter breaks one rule and is looked at no further.  On
any other, four checks run independently, in a fixed order; each reports at
most one broken rule.

| check | looks at |
| --- | --- |
| `checkName` | `name`, unquoted |
| `checkDescription` | `description`, unquoted |
| `checkInputVariables` | the input variables of the whole file |
| `checkOutputSection` | the whole file, for `Output` or `出力` |
-/

import DocLint.Diagnostic
import DocLint.Frontmatter.Block
import DocLint.Name
import DocLint.Prompt.Variables

namespace DocLint

namespace Prompt

/-- A prompt file with frontmatter. -/
structure Document where
  path : Path
  text : Text
  fields : Frontmatter

/-- The name must be there and be valid. -/
def checkName (d : Document) : Option Diagnostic :=
  match d.fields.nonEmpty? "name" with
  | none => some (.new .blocker "prompt/missing-name" "missing name" d.path)
  | some name =>
    if isValidName name then none
    else some (.new .blocker "prompt/invalid-name" ("invalid name '" ++ name ++ "'") d.path)

/-- The description must be there. -/
def checkDescription (d : Document) : Option Diagnostic :=
  match d.fields.nonEmpty? "description" with
  | none => some (.new .blocker "prompt/missing-description" "missing description" d.path)
  | some _ => none

/-- There should be two input variables, and must be one. -/
def checkInputVariables (d : Document) : Option Diagnostic :=
  match variableCount d.text with
  | 0 =>
    some (.new .warning "prompt/no-input-variables"
      "no $\x7binput:...\x7d variables found (hard to reuse)" d.path)
  | 1 =>
    some (.new .info "prompt/single-input-variable"
      "only 1 $\x7binput:...\x7d variable found (consider 2+)" d.path)
  | _ => none

/-- The words by which a prompt speaks of its output. -/
def outputMarkers : List Text := [['O', 'u', 't', 'p', 'u', 't'], ['出', '力']]

/-- The output should be spoken of. -/
def checkOutputSection (d : Document) : Option Diagnostic :=
  if outputMarkers.any (Text.contains · d.text) then none
  else
    some (.new .info "prompt/no-output-section" "no explicit output format section found" d.path)

/-- The checks, in the order of their diagnostics. -/
def checks : List (Document → Option Diagnostic) :=
  [checkName, checkDescription, checkInputVariables, checkOutputSection]

/-- The broken rules of the prompt file at `path` that holds `text`. -/
def check (path : Path) (text : Text) : List Diagnostic :=
  match Frontmatter.extract .strip text with
  | none =>
    [.new .blocker "prompt/missing-frontmatter" "missing/invalid YAML frontmatter" path]
  | some fields => checks.filterMap fun check => check ⟨path, text, fields⟩

/-- **A prompt breaks four rules at most,** one for each check. -/
theorem length_check_le (path : Path) (text : Text) : (check path text).length ≤ 4 := by
  unfold check
  split
  · simp
  · exact List.length_filterMap_le _ _

end Prompt

end DocLint
