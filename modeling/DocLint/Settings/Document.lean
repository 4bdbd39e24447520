/-
# Settings in a TOML document

The sections `[prompts]` and `[skills]` of a settings file, SPEC_FULL.md §10.7.

What a document says about the settings.  A key that is absent leaves the
default, an unknown key is passed over, and a known key must have its type.

| key | type |
| --- | --- |
| `prompts`, `skills` | table, array in brackets or date-time |
| `prompts.root`, `prompts.suffix` | string |
| `skills.root`, `skills.file_name` | string |
| `skills.max_lines`, `skills.max_description_chars` | integer from 0 to 2⁶⁴ - 1 |

An array gives the values of the keys in the order above: what is missing at
its end leaves the defaults.  A date-time says nothing.

A number without a value anywhere in the document spoils it, under an unknown
key too; only what is left over at the end of such an array is never read.
-/

import DocLint.Settings
import DocLint.Toml.Document

namespace DocLint

namespace Settings

open Toml (Value Fields)

/-- The text that a value is, or `otherwise` where there is no value. -/
def text? (otherwise : Text) : Option Value → Option Text
  | none => some otherwise
  | some (.string t) => some t
  | some _ => none

/-- The limit that a value is, or `otherwise` where there is no value. -/
def limit? (otherwise : Nat) : Option Value → Option Nat
  | none => some otherwise
  | some (.integer n) => if 0 ≤ n ∧ n < UInt64.size then some n.toNat else none
  | some _ => none

/-- How the values of a group of `size` settings are found: by the place and the
name of each. -/
def lookup? (size : Nat) : Option Value → Option (Nat → Text → Option Value)
  | none => some fun _ _ => none
  | some (.table _ fields) =>
    if Value.fieldsAreValid fields then some fun _ key => Fields.get? fields key else none
  | some (.array items) =>
    if Value.areValid (items.take size) then some fun place _ => items[place]? else none
  | some (.dateTime _) => some fun _ _ => none
  | some _ => none

/-- The settings for prompts in a value. -/
def prompts? (value : Option Value) : Option PromptSettings := do
  let find ← lookup? 2 value
  let defaults : PromptSettings := {}
  let root ← text? defaultPromptsRoot (find 0 "root")
  let suffix ← text? defaults.suffix (find 1 "suffix")
  some { root := Utf8.encode root, suffix }

/-- The settings for skills in a value. -/
def skills? (value : Option Value) : Option SkillSettings := do
  let find ← lookup? 4 value
  let defaults : SkillSettings := {}
  let root ← text? defaultSkillsRoot (find 0 "root")
  let fileName ← text? defaults.fileName (find 1 "file_name")
  let maxLines ← limit? defaults.maxLines (find 2 "max_lines")
  let maxDescriptionChars ← limit? defaults.maxDescriptionChars (find 3 "max_description_chars")
  some { root := Utf8.encode root, fileName, maxLines, maxDescriptionChars }

/-- The names of the groups. -/
def groups : List Text := ["prompts", "skills"]

/-- The settings in the table of a document. -/
def ofTable? (fields : Fields) : Option Settings := do
  let prompts ← prompts? (fields.get? "prompts")
  let skills ← skills? (fields.get? "skills")
  if Value.fieldsAreValid (fields.filter (·.1 ∉ groups)) then some { prompts, skills } else none

/-- The settings in a document. -/
def parse? (document : Text) : Option Settings := (Toml.parse? document).bind ofTable?

end Settings

end DocLint
