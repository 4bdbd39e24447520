/-
# Every diagnostic cites a rule

SPEC_FULL.md §10.3: the catalogue against what the validators emit.

Wherever a check, or a run, writes down an id and a severity, they are those of one rule of
the catalogue, and the path is that of the document that breaks it (`Diagnostic.Cites`).

| diagnostics of | cite a rule of | at |
| --- | --- | --- |
| a prompt | `Prompt.catalogue` | its file |
| a skill | `Skill.catalogue` | its directory or the document in it |
| a run | the catalogue of the kind | such a path of a document that was found |

Seventeen places report something: seven in a prompt, eight in a skill, and one for the
unreadable document of either kind.  Each is met once below.
-/

import DocLint.Catalogue
import DocLint.Lint
import DocLint.Proofs.Prompt.Findings
import DocLint.Proofs.Report.Order
import DocLint.Proofs.Skill.Findings

namespace DocLint

/-! ### Prompts -/

namespace Prompt

/-- A check cites a rule of its kind at a path that it was given.  By cases on the checks: each
writes an id and a severity of its own, and the rule with both is named. -/
theorem cites_of_mem_checks {check : Document → Option Diagnostic} (h : check ∈ checks)
    {doc : Document} {d : Diagnostic} (hd : check doc = some d) :
    ∃ rule ∈ catalogue, d.Cites rule doc.path := by
  simp only [checks, List.mem_cons, List.not_mem_nil, or_false] at h
  rcases h with rfl | rfl | rfl | rfl
  · rcases eq_of_checkName hd with rfl | ⟨name, -, rfl⟩
    · exact ⟨missingName, by simp [catalogue], missingName.cites_violation _ _⟩
    · exact ⟨invalidName, by simp [catalogue], invalidName.cites_violation _ _⟩
  · rw [eq_of_checkDescription hd]
    exact ⟨missingDescription, by simp [catalogue], missingDescription.cites_violation _ _⟩
  · rcases eq_of_checkInputVariables hd with ⟨rfl, -⟩ | ⟨rfl, -⟩
    · exact ⟨noInputVariables, by simp [catalogue], noInputVariables.cites_violation _ _⟩
    · exact ⟨singleInputVariable, by simp [catalogue], singleInputVariable.cites_violation _ _⟩
  · rw [eq_of_checkOutputSection hd]
    exact ⟨noOutputSection, by simp [catalogue], noOutputSection.cites_violation _ _⟩

/-- **What is reported of a prompt cites a rule about prompts,** at the path of the prompt. -/
theorem cites_of_mem_check {path : Path} {text : Text} {d : Diagnostic} (hd : d ∈ check path text) :
    ∃ rule ∈ catalogue, d.Cites rule path := by
  unfold check at hd
  split at hd
  · rw [List.mem_singleton] at hd
    exact ⟨missingFrontmatter, by simp [catalogue], hd ▸ missingFrontmatter.cites_violation _ _⟩
  · next fields _ =>
    obtain ⟨check, hcheck, hd⟩ := List.mem_filterMap.1 hd
    exact cites_of_mem_checks hcheck hd

end Prompt

/-! ### Skills -/

namespace Skill

/-- A check of a skill cites a rule for skills at the directory or at the document. -/
theorem cites_of_mem_checks {check : Document → Option Diagnostic} (h : check ∈ checks)
    {doc : Document} {d : Diagnostic} (hd : check doc = some d) :
    ∃ rule ∈ catalogue, d.Cites rule doc.directory ∨ d.Cites rule doc.file := by
  simp only [checks, List.mem_cons, List.not_mem_nil, or_false] at h
  rcases h with rfl | rfl | rfl | rfl
  · rcases eq_of_checkName hd with rfl | ⟨name, -, rfl⟩
    · exact ⟨missingName, by simp [catalogue], .inr (missingName.cites_violation _ _)⟩
    · exact ⟨invalidName, by simp [catalogue], .inr (invalidName.cites_violation _ _)⟩
  · obtain ⟨name, -, rfl⟩ := eq_of_checkDirectoryName hd
    exact ⟨directoryMismatch, by simp [catalogue], .inl (directoryMismatch.cites_violation _ _)⟩
  · rw [eq_of_checkDescription hd]
    exact ⟨missingDescription, by simp [catalogue], .inr (missingDescription.cites_violation _ _)⟩
  · obtain ⟨description, -, -, rfl⟩ := eq_of_checkDescriptionLength hd
    exact ⟨descriptionTooLong, by simp [catalogue],
      .inr (descriptionTooLong.cites_violationWith _ _ _)⟩

/-- What is reported of the text of a skill cites a rule about skills, at the directory or at
the document in it. -/
theorem cites_of_mem_checkText {directory file : Path} {text : Text} {settings : SkillSettings}
    {d : Diagnostic} (hd : d ∈ checkText directory file text settings) :
    ∃ rule ∈ catalogue, d.Cites rule directory ∨ d.Cites rule file := by
  unfold checkText at hd
  rcases List.mem_append.1 hd with hd | hd
  · obtain ⟨-, rfl⟩ := eq_of_checkLineCount (Option.mem_toList.1 hd)
    exact ⟨tooLong, by simp [catalogue], .inr (tooLong.cites_violationWith _ _ _)⟩
  · split at hd
    · rw [List.mem_singleton] at hd
      exact ⟨missingFrontmatter, by simp [catalogue],
        .inr (hd ▸ missingFrontmatter.cites_violation _ _)⟩
    · next fields _ =>
      obtain ⟨check, hcheck, hd⟩ := List.mem_filterMap.1 hd
      exact cites_of_mem_checks hcheck hd

/-- **What is reported of a skill cites a rule about skills,** at its directory or at the
document in it. -/
theorem cites_of_mem_check {fs : FileSystem} {directory : Path} {settings : SkillSettings}
    {d : Diagnostic} (hd : d ∈ check fs directory settings) :
    ∃ rule ∈ catalogue,
      d.Cites rule directory ∨ d.Cites rule (Path.join directory settings.documentName) := by
  unfold check at hd
  dsimp only at hd
  split at hd
  · split at hd
    · exact cites_of_mem_checkText hd
    · rw [List.mem_singleton] at hd
      exact ⟨unreadable, by simp [catalogue], .inr (hd ▸ unreadable.cites_violationWith _ _ _)⟩
  · rw [List.mem_singleton] at hd
    exact ⟨missingDocument, by simp [catalogue], .inl (hd ▸ missingDocument.cites_violation _ _)⟩

end Skill

/-! ### Runs -/

namespace Lint

variable {fs : FileSystem} {settings : Settings} {kind : Kind} {root target : Path}
  {timestamp : Text} {report : Report} {d : Diagnostic}

/-- The path of the document that is read for a target. -/
def documentPath (settings : Settings) (kind : Kind) (target : Path) : Path :=
  match kind with
  | .prompt => target
  | .skill => Path.join target settings.skills.documentName

/-- **What is found at a target cites a rule of its kind,** at the target or at the
document read for it. -/
theorem cites_of_mem_validate (hd : d ∈ validate fs settings kind target) :
    ∃ rule ∈ Catalogue.rulesFor kind,
      d.Cites rule target ∨ d.Cites rule (documentPath settings kind target) := by
  unfold validate at hd
  cases kind with
  | prompt =>
    dsimp only at hd
    split at hd
    · obtain ⟨rule, hrule, hcites⟩ := Prompt.cites_of_mem_check hd
      exact ⟨rule, hrule, .inl hcites⟩
    · rw [List.mem_singleton] at hd
      exact ⟨Prompt.unreadable, by simp [Catalogue.rulesFor, Prompt.catalogue],
        .inl (hd ▸ Prompt.unreadable.cites_violationWith _ _ _)⟩
  | skill => exact Skill.cites_of_mem_check hd

/-- The report of a run that has one: what is found in the documents, in the order in which they
were discovered, and their number. -/
theorem report_eq_of_run (h : run fs settings kind root timestamp = .ok report) :
    report = .new kind root timestamp (discover fs settings kind root).length
      ((discover fs settings kind root).flatMap (validate fs settings kind)) := by
  unfold run at h
  split at h
  · cases h
  · split at h
    · cases h
    · exact (Except.ok.inj h).symm

/-- A run reports what is found in the documents it discovers, and nothing else; sorting only
moves it. -/
theorem mem_diagnostics_of_run (h : run fs settings kind root timestamp = .ok report) :
    d ∈ report.diagnostics ↔
      ∃ target ∈ discover fs settings kind root, d ∈ validate fs settings kind target := by
  rw [report_eq_of_run h, Report.new, Diagnostic.mem_sortBySeverity, List.mem_flatMap]

end Lint

end DocLint
