/-
# Documents that cannot be read

Documents that are missing or cannot be read, SPEC_FULL.md §4.3, rule 1, and §10.3.

A run asks after a document three times: when it looks for targets, when it looks whether the
document is there, and when it reads it.  In a file tree, where nothing is forbidden and
nothing changes meanwhile, the answers fit together.

| the path of the document resolves to | prompts | skills |
| --- | --- | --- |
| a file | read | read |
| a directory | no target | `unreadable`, at the path |
| nothing | no target | `missingDocument`, at the target |

So a prompt is never unreadable, and a skill is so exactly where a directory stands in for its
document (`run_tellsDocuments`).  It does not matter how the document is called in the
settings: the name is joined to the target, and only what the whole path resolves to counts.
-/

import DocLint.Proofs.Lint.Locality
import DocLint.Proofs.Prompt.Bytes

namespace DocLint

/-- The report has a diagnostic of `rule` at `path`. -/
def Report.HasAt (report : Report) (rule : Rule) (path : Path) : Prop :=
  ∃ d ∈ report.diagnostics, d.ruleId = rule.id ∧ d.path = path

/-- A directory can be asked for, and not be read. -/
theorem FileTree.readText_of_isDirectoryAt {t : FileTree} {p : Path} (h : t.IsDirectoryAt p) :
    t.fileSystem.readText p = .error .isADirectory := by
  obtain ⟨entries, hentries⟩ := h
  simp only [FileSystem.readText, fileSystem, hentries]
  rfl

/-! ### Prompts -/

namespace Prompt

/-- The text of a prompt does not make it unreadable: no check of it reports under that rule. -/
theorem not_reports_unreadable (path : Path) (t : Text) : ¬ Reports (check path t) unreadable := by
  intro h
  cases hextract : Frontmatter.extract .strip t with
  | none =>
    rw [check, hextract] at h
    obtain ⟨d, hd, hid⟩ := h
    obtain rfl := List.mem_singleton.1 hd
    exact absurd hid (by show missingFrontmatter.id ≠ unreadable.id; decide +kernel)
  | some fields =>
    rcases (reports_check_iff hextract (by decide +kernel)).1 h with (hid | hid) | hid
    · exact absurd hid.1 (by decide +kernel)
    · exact absurd hid.1 (by decide +kernel)
    · exact absurd hid.1 (by decide +kernel)

end Prompt

/-! ### Skills -/

namespace Skill

/-- What is found where a directory stands in for the document `file`. -/
def unreadableFinding (file : Path) : Diagnostic :=
  unreadable.violationWith "unreadable file" file FileError.isADirectory.message

/-- What is found in `directory` where its document is not there. -/
def missingFinding (directory : Path) (settings : SkillSettings) : Diagnostic :=
  missingDocument.violation ("missing " ++ settings.fileName) directory

variable {t : FileTree} {directory file : Path} {settings : SkillSettings} {d : Diagnostic}

/-- **What the document's path resolves to decides how a skill is checked:** by its text, as
unreadable, or as missing. -/
theorem check_cases (t : FileTree) (directory : Path) (settings : SkillSettings) :
    let file := Path.join directory settings.documentName
    (∃ content, t.IsFileAt file content ∧ check t.fileSystem directory settings =
      checkText directory file (Utf8.decodeLossy content) settings) ∨
    (t.IsDirectoryAt file ∧ check t.fileSystem directory settings = [unreadableFinding file]) ∨
    (¬ t.Resolves file ∧
      check t.fileSystem directory settings = [missingFinding directory settings]) := by
  intro file
  by_cases hresolves : t.Resolves file
  · have hsomewhere : t.fileSystem.leadsSomewhere file := FileTree.leadsSomewhere_iff.2 hresolves
    rcases hresolves with ⟨content, hfile⟩ | hdirectory
    · have hread : t.fileSystem.readText file = .ok (Utf8.decodeLossy content) :=
        FileTree.readText_eq_ok_iff.2 ⟨content, hfile, rfl⟩
      refine .inl ⟨content, hfile, ?_⟩
      simp only [check, file, hsomewhere, hread, if_true]
    · have hread := FileTree.readText_of_isDirectoryAt hdirectory
      refine .inr (.inl ⟨hdirectory, ?_⟩)
      simp only [check, file, hsomewhere, hread, if_true]
      rfl
  · have hnowhere : ¬ t.fileSystem.leadsSomewhere file := mt FileTree.leadsSomewhere_iff.1 hresolves
    exact .inr (.inr ⟨hresolves, check_of_not_leadsSomewhere hnowhere⟩)

/-- A document that is read is neither missing nor unreadable, whatever else it is. -/
theorem ruleId_ne_of_mem_checkText {text : Text} (hd : d ∈ checkText directory file text settings) :
    d.ruleId ≠ unreadable.id ∧ d.ruleId ≠ missingDocument.id := by
  have hrules : ∀ rules ∈ fieldRules.map (tooLong :: ·),
      unreadable.id ∉ rules.map (·.id) ∧ missingDocument.id ∉ rules.map (·.id) := by
    decide +kernel
  obtain ⟨rest, heq, rules, hmem, hrest⟩ := checkText_eq_append directory file text settings
  rw [heq] at hd
  have hfollows := (follows_checkLineCount file text settings).append hrest
  obtain ⟨hunreadable, hmissing⟩ := hrules _ (List.mem_map_of_mem hmem)
  exact ⟨fun e => hunreadable (e ▸ hfollows.mem hd), fun e => hmissing (e ▸ hfollows.mem hd)⟩

/-- **Only a directory in place of the document makes a skill unreadable,** and then this is all
that is found, at the path of the document. -/
theorem eq_of_unreadable (hd : d ∈ check t.fileSystem directory settings)
    (hid : d.ruleId = unreadable.id) :
    t.IsDirectoryAt (Path.join directory settings.documentName) ∧
      d = unreadableFinding (Path.join directory settings.documentName) := by
  rcases check_cases t directory settings with
    ⟨content, -, hcheck⟩ | ⟨hdirectory, hcheck⟩ | ⟨-, hcheck⟩
  · rw [hcheck] at hd
    exact absurd hid (ruleId_ne_of_mem_checkText hd).1
  · rw [hcheck] at hd
    exact ⟨hdirectory, List.mem_singleton.1 hd⟩
  · rw [hcheck] at hd
    obtain rfl := List.mem_singleton.1 hd
    exact absurd hid (by show missingDocument.id ≠ unreadable.id; decide +kernel)

/-- **Only a path that resolves to nothing makes the document missing,** be there no entry, a
link that leads nowhere or a loop; this is reported at the directory. -/
theorem eq_of_missing (hd : d ∈ check t.fileSystem directory settings)
    (hid : d.ruleId = missingDocument.id) :
    ¬ t.Resolves (Path.join directory settings.documentName) ∧
      d = missingFinding directory settings := by
  rcases check_cases t directory settings with
    ⟨content, -, hcheck⟩ | ⟨-, hcheck⟩ | ⟨hnowhere, hcheck⟩
  · rw [hcheck] at hd
    exact absurd hid (ruleId_ne_of_mem_checkText hd).2
  · rw [hcheck] at hd
    obtain rfl := List.mem_singleton.1 hd
    exact absurd hid (by show unreadable.id ≠ missingDocument.id; decide +kernel)
  · rw [hcheck] at hd
    exact ⟨hnowhere, List.mem_singleton.1 hd⟩

/-- A directory in place of the document is found: it is there, and it cannot be read. -/
theorem unreadableFinding_mem_check
    (h : t.IsDirectoryAt (Path.join directory settings.documentName)) :
    unreadableFinding (Path.join directory settings.documentName) ∈
      check t.fileSystem directory settings := by
  rcases check_cases t directory settings with
    ⟨content, hfile, -⟩ | ⟨-, hcheck⟩ | ⟨hnowhere, -⟩
  · obtain ⟨entries, hentries⟩ := h
    cases hfile.symm.trans hentries
  · rw [hcheck]
    exact List.mem_singleton_self _
  · exact absurd (.inr h) hnowhere

/-- A document that is not there is missed, for whichever reason its path resolves to nothing.
-/
theorem missingFinding_mem_check (h : ¬ t.Resolves (Path.join directory settings.documentName)) :
    missingFinding directory settings ∈ check t.fileSystem directory settings := by
  rcases check_cases t directory settings with
    ⟨content, hfile, -⟩ | ⟨hdirectory, -⟩ | ⟨-, hcheck⟩
  · exact absurd (.inl ⟨content, hfile⟩) h
  · exact absurd (.inr hdirectory) h
  · rw [hcheck]
    exact List.mem_singleton_self _

end Skill

/-! ### Runs -/

namespace Lint

/-- A report on the skills under `root` calls a document unreadable where a directory stands
in for it, and missing where nothing is there, and neither anywhere else. -/
structure TellsDocuments (t : FileTree) (settings : Settings) (root : Path) (report : Report) :
    Prop where
  unreadable_iff : ∀ target ∈ discover t.fileSystem settings .skill root,
    report.HasAt Skill.unreadable (Path.join target settings.skills.documentName) ↔
      t.IsDirectoryAt (Path.join target settings.skills.documentName)
  missing_iff : ∀ target ∈ discover t.fileSystem settings .skill root,
    report.HasAt Skill.missingDocument target ↔
      ¬ t.Resolves (Path.join target settings.skills.documentName)
  /-- Nothing is unreadable but the document of a target. -/
  unreadable_only : ∀ d ∈ report.diagnostics, d.ruleId = Skill.unreadable.id →
    ∃ target ∈ discover t.fileSystem settings .skill root,
      d = Skill.unreadableFinding (Path.join target settings.skills.documentName)
  /-- Nothing is missing but the document of a target. -/
  missing_only : ∀ d ∈ report.diagnostics, d.ruleId = Skill.missingDocument.id →
    ∃ target ∈ discover t.fileSystem settings .skill root,
      d = Skill.missingFinding target settings.skills

variable {t : FileTree} {settings : Settings} {root : Path} {timestamp : Text} {report : Report}

/-- **A prompt that was found can be read.**  Discovery takes only paths that lead to files, so
none is unreadable. -/
theorem exists_validate_eq_check {target : Path}
    (h : target ∈ discover t.fileSystem settings .prompt root) :
    ∃ content, t.IsFileAt target content ∧ validate t.fileSystem settings .prompt target =
      Prompt.check target (Utf8.decodeLossy content) := by
  rw [discover_eq_filter, List.mem_filter, isDocument, Bool.and_eq_true, FileSystem.isFile,
    beq_iff_eq, FileTree.kindAt_eq_file_iff] at h
  obtain ⟨-, ⟨content, hfile⟩, -⟩ := h
  exact ⟨content, hfile, Prompt.validate_eq_check hfile settings⟩

/-- **A run tells which documents are missing and which cannot be read,** skill by skill: what
is reported is so, and what is so is reported. -/
theorem tellsDocuments_of_run (h : run t.fileSystem settings .skill root timestamp = .ok report) :
    TellsDocuments t settings root report := by
  constructor
  case unreadable_iff =>
    refine fun target htarget => ⟨fun hat => ?_, fun hdirectory => ?_⟩
    · obtain ⟨d, hd, hid, hpath⟩ := hat
      obtain ⟨other, -, hfound⟩ := (mem_diagnostics_of_run h).1 hd
      obtain ⟨hdirectory, rfl⟩ := Skill.eq_of_unreadable hfound hid
      -- With an absolute name for the document, another target may share its path.
      have hpath : Path.join other settings.skills.documentName =
          Path.join target settings.skills.documentName := hpath
      exact hpath ▸ hdirectory
    · exact ⟨_, (mem_diagnostics_of_run h).2
        ⟨target, htarget, Skill.unreadableFinding_mem_check hdirectory⟩, rfl, rfl⟩
  case missing_iff =>
    refine fun target htarget => ⟨fun hat => ?_, fun hnowhere => ?_⟩
    · obtain ⟨d, hd, hid, hpath⟩ := hat
      obtain ⟨other, -, hfound⟩ := (mem_diagnostics_of_run h).1 hd
      obtain ⟨hnowhere, rfl⟩ := Skill.eq_of_missing hfound hid
      have hpath : other = target := hpath
      exact hpath ▸ hnowhere
    · exact ⟨_, (mem_diagnostics_of_run h).2
        ⟨target, htarget, Skill.missingFinding_mem_check hnowhere⟩, rfl, rfl⟩
  case unreadable_only =>
    intro d hd hid
    obtain ⟨target, htarget, hfound⟩ := (mem_diagnostics_of_run h).1 hd
    exact ⟨target, htarget, (Skill.eq_of_unreadable hfound hid).2⟩
  case missing_only =>
    intro d hd hid
    obtain ⟨target, htarget, hfound⟩ := (mem_diagnostics_of_run h).1 hd
    exact ⟨target, htarget, (Skill.eq_of_missing hfound hid).2⟩

/-- **Only directories that stand in for documents are unreadable.**  No report on prompts
calls one unreadable, and a report on skills tells of each document whether a directory or
nothing is in its place. -/
theorem run_tellsDocuments (t : FileTree) (settings : Settings) (root : Path) (timestamp : Text) :
    (∀ report, run t.fileSystem settings .prompt root timestamp = .ok report →
      ∀ d ∈ report.diagnostics, d.ruleId ≠ Prompt.unreadable.id) ∧
    ∀ report, run t.fileSystem settings .skill root timestamp = .ok report →
      TellsDocuments t settings root report := by
  refine ⟨fun report h d hd hid => ?_, fun report h => tellsDocuments_of_run h⟩
  obtain ⟨target, htarget, hfound⟩ := (mem_diagnostics_of_run h).1 hd
  obtain ⟨content, -, hcheck⟩ := exists_validate_eq_check htarget
  exact Prompt.not_reports_unreadable target _ ⟨d, hcheck ▸ hfound, hid⟩

/-- Four skills: a directory in place of the first document and, behind a link, of the
second; nothing of the third, and nothing behind the link of the fourth. -/
def standIns : FileTree :=
  ⟨.directory
    [("s", .directory
      [("a", .directory [("SKILL.md", .directory [])]),
        ("b", .directory [("SKILL.md", .link "../a")]), ("c", .directory []),
        ("d", .directory [("SKILL.md", .link "SKILL.md")])])], []⟩

/-- Two are unreadable and two are missing. -/
theorem run_tellsDocuments_standIns :
    ∃ report, run standIns.fileSystem {} .skill "s" [] = .ok report ∧
      TellsDocuments standIns {} "s" report ∧
      report.HasAt Skill.unreadable "s/a/SKILL.md" ∧
      report.HasAt Skill.unreadable "s/b/SKILL.md" ∧
      report.HasAt Skill.missingDocument "s/c" ∧ report.HasAt Skill.missingDocument "s/d" ∧
      ¬ report.HasAt Skill.missingDocument "s/a" := by
  have htells := (run_tellsDocuments standIns {} "s" []).2 _ rfl
  have htargets : discover standIns.fileSystem {} .skill "s" =
      (["s/a", "s/b", "s/c", "s/d"] : List Bytes) := by decide +kernel
  have hnowhere (p : Path) (h : standIns.fileSystem.leadsSomewhere p = false) :
      ¬ standIns.Resolves p :=
    fun hresolves => Bool.false_ne_true (h.symm.trans (FileTree.leadsSomewhere_iff.2 hresolves))
  refine ⟨_, rfl, htells, ?_, ?_, ?_, ?_, ?_⟩
  · exact (htells.unreadable_iff "s/a" (htargets ▸ by decide)).2 ⟨_, rfl⟩
  · exact (htells.unreadable_iff "s/b" (htargets ▸ by decide)).2 ⟨_, rfl⟩
  · exact (htells.missing_iff "s/c" (htargets ▸ by decide)).2 (hnowhere _ (by decide +kernel))
  · exact (htells.missing_iff "s/d" (htargets ▸ by decide)).2 (hnowhere _ (by decide +kernel))
  · exact fun hat =>
      (htells.missing_iff "s/a" (htargets ▸ by decide)).1 hat (.inr ⟨_, rfl⟩)

end Lint

end DocLint
