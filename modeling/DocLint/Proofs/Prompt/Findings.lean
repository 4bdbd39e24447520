/-
# What each check of a prompt can find

A check is silent or finds one of the diagnostics below, and nothing else of the document
gets into what it finds.

| check | finds | text of the document in it |
| --- | --- | --- |
| `checkName` | `missingName`, `invalidName` | the name that is not valid |
| `checkDescription` | `missingDescription` | |
| `checkInputVariables` | `noInputVariables`, `singleInputVariable` | |
| `checkOutputSection` | `noOutputSection` | |

What is proved of every diagnostic of a prompt is proved of these, and the whole finding
is the four put together (`filterMap_checks`).
-/

import DocLint.Prompt.Check
import DocLint.Proofs.Frontmatter.Fields
import DocLint.Proofs.Rule.Citing
import Mathlib.Data.List.Basic

namespace DocLint

namespace Prompt

open Frontmatter

variable {d : Document} {x : Diagnostic}

/-- The name is reported as the catalogue has it, as missing or with the name that is invalid.
-/
theorem eq_of_checkName (h : checkName d = some x) :
    x = missingName.violation "missing name" d.path ∨
      ∃ name, d.fields.get? "name" = some name ∧
        x = invalidName.violation ("invalid name '" ++ name ++ "'") d.path := by
  unfold checkName at h
  split at h
  · exact .inl (Option.some.inj h).symm
  · next name hname =>
    split at h
    · cases h
    · exact .inr ⟨name, (nonEmpty?_eq_some_iff.1 hname).1, (Option.some.inj h).symm⟩

/-- The description is reported as the catalogue has it. -/
theorem eq_of_checkDescription (h : checkDescription d = some x) :
    x = missingDescription.violation "missing description" d.path := by
  unfold checkDescription at h
  split at h
  · exact (Option.some.inj h).symm
  · cases h

/-- The variables are reported as the catalogue has it, under one rule for none and under
another for one. -/
theorem eq_of_checkInputVariables (h : checkInputVariables d = some x) :
    x = noInputVariables.violation "no $\x7binput:...\x7d variables found (hard to reuse)" d.path ∧
        variableCount d.text = 0 ∨
      x = singleInputVariable.violation "only 1 $\x7binput:...\x7d variable found (consider 2+)"
          d.path ∧
        variableCount d.text = 1 := by
  unfold checkInputVariables at h
  split at h
  · next hcount => exact .inl ⟨(Option.some.inj h).symm, hcount⟩
  · next hcount => exact .inr ⟨(Option.some.inj h).symm, hcount⟩
  · cases h

/-- The output section is reported as the catalogue has it. -/
theorem eq_of_checkOutputSection (h : checkOutputSection d = some x) :
    x = noOutputSection.violation "no explicit output format section found" d.path := by
  unfold checkOutputSection at h
  split at h
  · cases h
  · exact (Option.some.inj h).symm

/-- **What is found in a prompt is what its four checks find,** in their order.  All that is
said of a prompt as a whole begins with this. -/
theorem filterMap_checks (d : Document) :
    (checks.filterMap fun check => check d) =
      (checkName d).toList ++ ((checkDescription d).toList ++
        ((checkInputVariables d).toList ++ (checkOutputSection d).toList)) := by
  rw [List.filterMap_eq_flatMap_toList, checks, List.flatMap_cons, List.flatMap_cons,
    List.flatMap_cons, List.flatMap_singleton]

end Prompt

end DocLint
