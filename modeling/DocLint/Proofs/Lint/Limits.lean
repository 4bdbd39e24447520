/-
# Higher limits

`max_lines` and `max_description_chars`, SPEC_FULL.md §4.3, rules 2 and 7.

Two limits hold for a skill: the lines that its document may have, and the characters that
its description may have.  With higher limits a run finds what it found before, less some
of the warnings (`run_eases`).

| found with lower limits | found with higher ones |
| --- | --- |
| a blocker or a hint | as it is |
| a warning | not at all, or of the same rule, at the same path, with the same value measured |

A warning need not stay as it is, since its message tells the limit.  So two lists of
findings are compared severity by severity, and warnings by what they have besides the
message (`Diagnostic.Eases`).  The comparison goes through whatever a run does with the
findings of its documents: put them one behind the other, and sort them.
-/

import DocLint.Lint
import DocLint.Proofs.Report.Order
import DocLint.Proofs.Skill.Findings
import Mathlib.Data.List.Basic

namespace DocLint

namespace Diagnostic

/-- What a diagnostic says besides its message. -/
def measured (d : Diagnostic) : Text × Path × Option Text := (d.ruleId, d.path, d.observed)

/-- The findings `loose` are the findings `strict`, less some of the warnings. -/
structure Eases (strict loose : List Diagnostic) : Prop where
  blockers : loose.filter (·.severity = .blocker) = strict.filter (·.severity = .blocker)
  infos : loose.filter (·.severity = .info) = strict.filter (·.severity = .info)
  warnings : ((loose.filter (·.severity = .warning)).map measured).Sublist
    ((strict.filter (·.severity = .warning)).map measured)

variable {strict loose : List Diagnostic} {x y : Diagnostic}

theorem Eases.refl (ds : List Diagnostic) : Eases ds ds := ⟨rfl, rfl, .refl _⟩

/-- What is eased part by part is eased as a whole, since each of its three conditions is. -/
theorem Eases.append {strict' loose' : List Diagnostic} (h : Eases strict loose)
    (h' : Eases strict' loose') : Eases (strict ++ strict') (loose ++ loose') := by
  constructor
  · rw [List.filter_append, List.filter_append, h.blockers, h'.blockers]
  · rw [List.filter_append, List.filter_append, h.infos, h'.infos]
  · simp only [List.filter_append, List.map_append]
    exact h.warnings.append h'.warnings

/-- What is eased document by document is eased over all of them. -/
theorem Eases.flatMap {α : Type} {targets : List α} {f g : α → List Diagnostic}
    (h : ∀ target ∈ targets, Eases (f target) (g target)) :
    Eases (targets.flatMap f) (targets.flatMap g) := by
  induction targets with
  | nil => exact .refl []
  | cons target targets ih =>
    obtain ⟨hfirst, hrest⟩ := List.forall_mem_cons.1 h
    rw [List.flatMap_cons, List.flatMap_cons]
    exact hfirst.append (ih hrest)

/-- Sorting leaves the diagnostics of one severity in their order, so what is eased stays eased.
-/
theorem Eases.sortBySeverity (h : Eases strict loose) :
    Eases (sortBySeverity strict) (sortBySeverity loose) := by
  constructor
  · rw [filter_sortBySeverity, filter_sortBySeverity, h.blockers]
  · rw [filter_sortBySeverity, filter_sortBySeverity, h.infos]
  · rw [filter_sortBySeverity, filter_sortBySeverity]
    exact h.warnings

/-- **A value above the higher limit is above the lower one,** and may be above that
alone. -/
theorem eases_of_limit {value lower higher : Nat} (hlimit : lower ≤ higher)
    (hx : x.severity = .warning) (hy : y.severity = .warning)
    (hmeasured : y.measured = x.measured) :
    Eases (if lower < value then some x else none).toList
      (if higher < value then some y else none).toList := by
  by_cases hhigh : higher < value
  · rw [if_pos hhigh, if_pos (Nat.lt_of_le_of_lt hlimit hhigh)]
    constructor <;> simp [hx, hy, hmeasured]
  · rw [if_neg hhigh]
    by_cases hlow : lower < value
    · rw [if_pos hlow]
      constructor <;> simp [hx]
    · rw [if_neg hlow]
      exact .refl _

end Diagnostic

open Diagnostic

namespace Skill

variable {strict loose : SkillSettings} {directory file : Path}

/-- What is found in the fields, by settings that differ in the limits: only the length of the
description is measured against one. -/
theorem eases_checks (hchars : strict.maxDescriptionChars ≤ loose.maxDescriptionChars)
    (fields : Frontmatter) :
    Eases (checks.filterMap fun check => check ⟨directory, file, fields, strict⟩)
      (checks.filterMap fun check => check ⟨directory, file, fields, loose⟩) := by
  have hlength : Eases (checkDescriptionLength ⟨directory, file, fields, strict⟩).toList
      (checkDescriptionLength ⟨directory, file, fields, loose⟩).toList := by
    unfold checkDescriptionLength
    dsimp only
    cases fields.nonEmpty? "description" with
    | none => exact .refl _
    | some description => exact eases_of_limit hchars rfl rfl rfl
  rw [filterMap_checks, filterMap_checks]
  -- The other three checks look at no limit.
  exact (Eases.refl _).append ((Eases.refl _).append ((Eases.refl _).append hlength))

/-- **With higher limits a text breaks no rule that it kept before,** and only the two warnings
about sizes can go. -/
theorem eases_checkText (hlines : strict.maxLines ≤ loose.maxLines)
    (hchars : strict.maxDescriptionChars ≤ loose.maxDescriptionChars) (text : Text) :
    Eases (checkText directory file text strict) (checkText directory file text loose) := by
  have hcount : Eases (checkLineCount file text strict).toList
      (checkLineCount file text loose).toList := eases_of_limit hlines rfl rfl rfl
  unfold checkText
  refine hcount.append ?_
  split
  · exact .refl _
  · next fields _ => exact eases_checks hchars fields

/-- **A skill is found fault with less by higher limits.**  Of its checks two measure against a
limit, and both warn. -/
theorem eases_check (hname : strict.fileName = loose.fileName)
    (hlines : strict.maxLines ≤ loose.maxLines)
    (hchars : strict.maxDescriptionChars ≤ loose.maxDescriptionChars) (fs : FileSystem)
    (directory : Path) : Eases (check fs directory strict) (check fs directory loose) := by
  have hdocument : strict.documentName = loose.documentName := congrArg Utf8.encode hname
  unfold check
  dsimp only
  rw [← hname, ← hdocument]
  split
  · split
    · exact eases_checkText hlines hchars _
    · exact .refl _
  · exact .refl _

end Skill

namespace Lint

/-- **Higher limits take warnings away and nothing else,** from whatever run there is.  The
documents are the same, since no limit is asked for in finding them. -/
theorem run_eases {strict loose : Settings} (hname : strict.skills.fileName = loose.skills.fileName)
    (hlines : strict.skills.maxLines ≤ loose.skills.maxLines)
    (hchars : strict.skills.maxDescriptionChars ≤ loose.skills.maxDescriptionChars)
    (fs : FileSystem) (root : Path) (timestamp : Text) :
    (∃ e, run fs strict .skill root timestamp = .error e ∧
      run fs loose .skill root timestamp = .error e) ∨
    ∃ report report', run fs strict .skill root timestamp = .ok report ∧
      run fs loose .skill root timestamp = .ok report' ∧
      report.documentsChecked = report'.documentsChecked ∧
      Eases report.diagnostics report'.diagnostics := by
  unfold run
  split
  · exact .inl ⟨_, rfl, rfl⟩
  · split
    · exact .inl ⟨_, rfl, rfl⟩
    · refine .inr ⟨_, _, rfl, rfl, rfl, Eases.sortBySeverity (Eases.flatMap fun target _ => ?_)⟩
      exact Skill.eases_check hname hlines hchars fs target

end Lint

end DocLint
