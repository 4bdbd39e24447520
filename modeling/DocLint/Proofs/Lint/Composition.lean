/-
# What a run puts together

`run_lint`, SPEC_FULL.md §4.4, §4.5 and §10.4.

A run over a tree either cannot start at its root or reports on every document
below it.

| root | prompts | skills |
| --- | --- | --- |
| resolves to nothing | `notFound` | `notFound` |
| a file | a report | `notDirectory` |
| a directory | a report | a report |

The report takes the diagnostics of each document as they are.  It sorts them by
severity and changes nothing else: the diagnostics of one severity stand document
by document, in the order of the names, and within a document in the order of its
checks (`Composed`).  No document has more than four.
-/

import DocLint.Proofs.FileTree.Answers
import DocLint.Proofs.Lint.Discovery
import DocLint.Proofs.Report.Order
import DocLint.Proofs.Skill.Verdict

namespace DocLint

namespace Lint

/-- `report` is put together from the documents of a kind under `root`. -/
structure Composed (fs : FileSystem) (settings : Settings) (kind : Kind) (root : Path)
    (report : Report) : Prop where
  /-- Each document is counted. -/
  documentsChecked_eq : report.documentsChecked = (discover fs settings kind root).length
  /-- Within a severity the documents come by name, byte by byte, and each brings
  what its own checks found. -/
  by_document : ∃ names : List Bytes,
    discover fs settings kind root = names.map (Path.join root) ∧
    names.Pairwise (fun a b => a = b ∨ a < b) ∧
    ∀ s : Severity, report.diagnostics.filter (·.severity = s) =
      names.flatMap fun name =>
        (validate fs settings kind (Path.join root name)).filter (·.severity = s)
  /-- The more serious stand first. -/
  by_severity : report.diagnostics.Pairwise fun a b => a.severity.rank ≤ b.severity.rank
  /-- No document brings more than four. -/
  length_le : report.diagnostics.length ≤ 4 * report.documentsChecked

variable {fs : FileSystem} {settings : Settings} {kind : Kind} {root : Path}

/-- **A document breaks four rules at most,** of whichever kind it is: at most one for each
check, and none where it has no frontmatter but that. -/
theorem length_validate_le (target : Path) : (validate fs settings kind target).length ≤ 4 := by
  unfold validate
  cases kind with
  | prompt =>
    dsimp only
    split
    · exact Prompt.length_check_le _ _
    · exact Nat.le_add_left 1 3
  | skill =>
    obtain ⟨rules, hrules, h⟩ := Skill.follows_check fs target settings.skills
    exact (Skill.consistent_of_follows hrules h).length_le

/-- No document has more than four diagnostics, so all of them have four times their number at
most. -/
theorem length_flatMap_validate_le (targets : List Path) :
    (targets.flatMap (validate fs settings kind)).length ≤ 4 * targets.length := by
  induction targets with
  | nil => exact Nat.le_refl 0
  | cons target targets ih =>
    have hfirst : (validate fs settings kind target).length ≤ 4 := length_validate_le target
    rw [List.flatMap_cons, List.length_append, List.length_cons]
    omega

/-- Sorting by severity leaves the diagnostics of one severity where the documents
put them. -/
theorem filter_sortBySeverity_flatMap {β : Type} (s : Severity) (targets : List β)
    (found : β → List Diagnostic) :
    (Diagnostic.sortBySeverity (targets.flatMap found)).filter (·.severity = s) =
      targets.flatMap fun target => (found target).filter (·.severity = s) := by
  rw [Diagnostic.filter_sortBySeverity, List.filter_flatMap]

/-- **The report of a run is put together from its documents.**  Sorting keeps what is of one
severity in the order of the documents. -/
theorem composed_new (timestamp : Text) :
    Composed fs settings kind root
      (.new kind root timestamp (discover fs settings kind root).length
        ((discover fs settings kind root).flatMap (validate fs settings kind))) where
  documentsChecked_eq := rfl
  by_document := by
    refine ⟨documentNames fs settings kind root, discover_eq_map, pairwise_documentNames,
      fun s => ?_⟩
    rw [Report.new, discover_eq_map, List.flatMap_map]
    exact filter_sortBySeverity_flatMap s _ _
  by_severity := Diagnostic.pairwise_sortBySeverity _
  length_le := by
    rw [Report.new, (Diagnostic.perm_sortBySeverity _).length_eq]
    exact length_flatMap_validate_le _

/-- A run has a report where its root leads somewhere and, for skills, to a directory.  What the
documents are like has no say. -/
theorem run_eq_ok {timestamp : Text} (hsomewhere : fs.leadsSomewhere root)
    (hdirectory : kind = .skill → fs.isDirectory root) :
    ∃ report, run fs settings kind root timestamp = .ok report ∧
      Composed fs settings kind root report := by
  refine ⟨_, ?_, composed_new timestamp⟩
  have hnot : ¬ (kind = .skill ∧ !fs.isDirectory root) := by
    rintro ⟨hskill, h⟩
    rw [hdirectory hskill] at h
    exact absurd h Bool.false_ne_true
  rw [run, hsomewhere, if_neg (by decide), if_neg hnot]

/-- A run has one of three outcomes, and what it asks of its root tells which.  All that is said
of when a run starts is read off this. -/
theorem run_cases (fs : FileSystem) (settings : Settings) (kind : Kind) (root : Path)
    (timestamp : Text) :
    (fs.leadsSomewhere root = false ∧
      run fs settings kind root timestamp = .error (.notFound kind root)) ∨
    (fs.leadsSomewhere root ∧ kind = .skill ∧ fs.isDirectory root = false ∧
      run fs settings kind root timestamp = .error (.notDirectory kind root)) ∨
    (fs.leadsSomewhere root ∧ (kind = .skill → fs.isDirectory root) ∧
      ∃ report, run fs settings kind root timestamp = .ok report ∧
        Composed fs settings kind root report) := by
  cases hsomewhere : fs.leadsSomewhere root with
  | false => exact .inl ⟨rfl, by rw [run, hsomewhere]; rfl⟩
  | true =>
    by_cases hdirectory : kind = .skill → fs.isDirectory root
    · exact .inr (.inr ⟨rfl, hdirectory, run_eq_ok hsomewhere hdirectory⟩)
    · obtain ⟨rfl, hnot⟩ := Classical.not_imp.1 hdirectory
      rw [Bool.not_eq_true] at hnot
      exact .inr (.inl ⟨rfl, rfl, hnot, by rw [run, hsomewhere, hnot]; rfl⟩)

/-- **What a run over a tree comes to.**  It cannot start exactly where the root
resolves to nothing, or to what is no directory where skills are asked for;
everywhere else there is a report, put together from the documents whatever they
contain. -/
theorem run_outcome (t : FileTree) (settings : Settings) (kind : Kind) (root : Path)
    (timestamp : Text) :
    (run t.fileSystem settings kind root timestamp = .error (.notFound kind root) ↔
      ¬ t.Resolves root) ∧
    (run t.fileSystem settings kind root timestamp = .error (.notDirectory kind root) ↔
      kind = .skill ∧ t.Resolves root ∧ ¬ t.IsDirectoryAt root) ∧
    ((∃ report, run t.fileSystem settings kind root timestamp = .ok report ∧
        Composed t.fileSystem settings kind root report) ↔
      t.Resolves root ∧ (kind = .skill → t.IsDirectoryAt root)) := by
  rw [← FileTree.leadsSomewhere_iff, ← FileTree.isDirectory_iff]
  rcases run_cases t.fileSystem settings kind root timestamp with
    ⟨hnowhere, hrun⟩ | ⟨hsomewhere, hskill, hnot, hrun⟩ |
      ⟨hsomewhere, hdirectory, report, hrun, hreport⟩
  · rw [hrun]
    simp [hnowhere]
  · rw [hrun]
    simp [hsomewhere, hskill, hnot]
  · rw [hrun]
    simpa [hsomewhere, hreport] using hdirectory

end Lint

end DocLint
