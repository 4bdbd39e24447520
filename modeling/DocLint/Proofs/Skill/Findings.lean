/-
# What each check of a skill can find

A check is silent or finds one of the diagnostics below.  Of the document only two texts
get into what is found, and both are values of its fields.

| check | finds | text of the document in it |
| --- | --- | --- |
| `checkLineCount` | `tooLong` | |
| `checkName` | `missingName`, `invalidName` | the name that is not valid |
| `checkDirectoryName` | `directoryMismatch` | the name that the directory does not have |
| `checkDescription` | `missingDescription` | |
| `checkDescriptionLength` | `descriptionTooLong` | |

How many lines there are, and how many characters, is said in digits.
-/

import DocLint.Proofs.Frontmatter.Fields
import DocLint.Proofs.Rule.Citing
import DocLint.Skill.Check
import Mathlib.Data.List.Basic

namespace DocLint

namespace Skill

open Frontmatter

variable {d : Document} {x : Diagnostic}

/-- The number of lines is reported as the catalogue has it, with the limit in the message and
the number as measured. -/
theorem eq_of_checkLineCount {file : Path} {text : Text} {settings : SkillSettings}
    (h : checkLineCount file text settings = some x) :
    settings.maxLines < Text.lineCount text ∧
      x = tooLong.violationWith
        (settings.fileName ++ " too long (>" ++ Text.ofNat settings.maxLines ++ " lines)") file
        (Text.ofNat (Text.lineCount text) ++ " lines") := by
  unfold checkLineCount at h
  dsimp only at h
  split at h
  · next hlimit => exact ⟨hlimit, (Option.some.inj h).symm⟩
  · cases h

/-- The name is reported as the catalogue has it, as missing or with the name that is invalid.
-/
theorem eq_of_checkName (h : checkName d = some x) :
    x = missingName.violation "missing name in frontmatter" d.file ∨
      ∃ name, d.fields.get? "name" = some name ∧
        x = invalidName.violation
          ("invalid name '" ++ name ++ "' (must match ^[a-z0-9-]\x7b1,64\x7d$)") d.file := by
  unfold checkName at h
  split at h
  · exact .inl (Option.some.inj h).symm
  · next name hname =>
    split at h
    · cases h
    · exact .inr ⟨name, (nonEmpty?_eq_some_iff.1 hname).1, (Option.some.inj h).symm⟩

/-- The directory is reported as the catalogue has it, with both names in the message. -/
theorem eq_of_checkDirectoryName (h : checkDirectoryName d = some x) :
    ∃ name, d.fields.get? "name" = some name ∧
      x = directoryMismatch.violation
        ("directory name '" ++ ((Path.lastName? d.directory).map Path.display).getD [] ++
          "' differs from skill name '" ++ name ++ "'") d.directory := by
  unfold checkDirectoryName at h
  split at h
  · cases h
  · next name hname =>
    dsimp only at h
    split at h
    · cases h
    · exact ⟨name, (nonEmpty?_eq_some_iff.1 hname).1, (Option.some.inj h).symm⟩

/-- The description is reported as the catalogue has it. -/
theorem eq_of_checkDescription (h : checkDescription d = some x) :
    x = missingDescription.violation "missing description in frontmatter" d.file := by
  unfold checkDescription at h
  split at h
  · exact (Option.some.inj h).symm
  · cases h

/-- The length of the description is reported as the catalogue has it, with the limit in the
message and the number as measured. -/
theorem eq_of_checkDescriptionLength (h : checkDescriptionLength d = some x) :
    ∃ description, d.fields.get? "description" = some description ∧
      d.settings.maxDescriptionChars < description.length ∧
      x = descriptionTooLong.violationWith
        ("description too long (>" ++ Text.ofNat d.settings.maxDescriptionChars ++ " chars)") d.file
        (Text.ofNat description.length ++ " chars") := by
  unfold checkDescriptionLength at h
  split at h
  · cases h
  · next description hdescription =>
    dsimp only at h
    split at h
    · next hlimit =>
      exact ⟨description, (nonEmpty?_eq_some_iff.1 hdescription).1, hlimit,
        (Option.some.inj h).symm⟩
    · cases h

/-- **What is found in the fields of a skill is what its four checks find,** in their
order. -/
theorem filterMap_checks (d : Document) :
    (checks.filterMap fun check => check d) =
      (checkName d).toList ++ ((checkDirectoryName d).toList ++
        ((checkDescription d).toList ++ (checkDescriptionLength d).toList)) := by
  rw [List.filterMap_eq_flatMap_toList, checks, List.flatMap_cons, List.flatMap_cons,
    List.flatMap_cons, List.flatMap_singleton]

end Skill

end DocLint
