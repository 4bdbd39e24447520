/-
# What a report without blockers certifies

`check_name` and `check_directory_name` over a whole root, SPEC_FULL.md §4.3, rules 4 and 5.

A run over skills whose report has no blocker and no directory mismatch has seen a
named document in every directory under its root, and the name is that of the directory
(`run_certifies_names`).  No rule compares two skills.  Their names differ all the same,
because the names in a directory do.

Each way in which a directory could slip through is closed by a blocker of its own:

| where the checks stop | reported as |
| --- | --- |
| there is no document | `missingDocument` |
| it cannot be read | `unreadable` |
| it has no frontmatter | `missingFrontmatter` |
| its name is absent or empty | `missingName` |
| its name is no valid name | `invalidName` |
| its description is absent or empty | `missingDescription` |

What is left is a valid name that is not the directory's, and that is a mismatch.  The
directory is called by its name seen from the root, however the root is written and
wherever a link leads (`Path.lastName?_join`).
-/

import DocLint.Proofs.FileTree.Walks
import DocLint.Proofs.Lint.Citations
import DocLint.Proofs.Lint.Discovery
import DocLint.Proofs.Skill.Verdict

namespace DocLint

open Frontmatter

namespace Skill

/-- The skill in `directory` has a document with the frontmatter `fields`, values taken
as written. -/
def HasFields (t : FileTree) (settings : SkillSettings) (directory : Path)
    (fields : Frontmatter) : Prop :=
  ∃ content, t.IsFileAt (Path.join directory settings.documentName) content ∧
    extract .preserve (Utf8.decodeLossy content) = some fields

/-- A directory has one document, and that one frontmatter, so its name is settled. -/
theorem HasFields.unique {t : FileTree} {settings : SkillSettings} {directory : Path}
    {fields fields' : Frontmatter} (h : HasFields t settings directory fields)
    (h' : HasFields t settings directory fields') : fields = fields' := by
  obtain ⟨content, hfile, hfields⟩ := h
  obtain ⟨content', hfile', hfields'⟩ := h'
  obtain rfl : content = content' := by
    have hnode := Except.ok.inj (hfile.symm.trans hfile')
    exact Node.file.inj hnode
  exact Option.some.inj (hfields.symm.trans hfields')

/-- `fields` name the skill in `directory` and describe it. -/
structure Certifies (fields : Frontmatter) (directory : Path) : Prop where
  name : ∃ name, fields.get? "name" = some name ∧ NamePattern name ∧
    Path.lastName? directory = some (Utf8.encode name)
  description : ∃ description, fields.get? "description" = some description ∧ description ≠ []

/-- A diagnostic with which a skill is certified still: neither a blocker nor a mismatch. -/
def Tolerated (d : Diagnostic) : Prop := d.severity ≠ .blocker ∧ d.ruleId ≠ directoryMismatch.id

/-- The skill in `directory` has a document that describes it and calls it by a valid name,
the one that the bytes `name` spell. -/
def IsNamed (t : FileTree) (settings : SkillSettings) (directory : Path) (name : Bytes) : Prop :=
  ∃ fields called, HasFields t settings directory fields ∧ fields.get? "name" = some called ∧
    name = Utf8.encode called ∧ NamePattern called ∧
    ∃ description, fields.get? "description" = some description ∧ description ≠ []

variable {doc : Document} {d : Diagnostic}

/-- A name that is missing or invalid is not let pass: it is a blocker. -/
theorem not_tolerated_of_checkName (h : checkName doc = some d) : ¬ Tolerated d := by
  unfold checkName at h
  split at h
  · exact fun hd => hd.1 (Option.some.inj h ▸ rfl)
  · split at h
    · cases h
    · exact fun hd => hd.1 (Option.some.inj h ▸ rfl)

/-- A name that differs from the directory is not let pass here, although it is only a hint. -/
theorem not_tolerated_of_checkDirectoryName (h : checkDirectoryName doc = some d) :
    ¬ Tolerated d := by
  unfold checkDirectoryName at h
  split at h
  · cases h
  · dsimp only at h
    split at h
    · cases h
    · exact fun hd => hd.2 (Option.some.inj h ▸ rfl)

/-- A description that is missing is not let pass: it is a blocker. -/
theorem not_tolerated_of_checkDescription (h : checkDescription doc = some d) : ¬ Tolerated d := by
  unfold checkDescription at h
  split at h
  · exact fun hd => hd.1 (Option.some.inj h ▸ rfl)
  · cases h

/-- Where all that is found is tolerated, a check whose diagnostics are not is silent.  This is
how three checks are known to have passed. -/
theorem eq_none_of_tolerated {check : Document → Option Diagnostic} (hcheck : check ∈ checks)
    (hnot : ∀ d, check doc = some d → ¬ Tolerated d)
    (h : ∀ d ∈ checks.filterMap fun check => check doc, Tolerated d) : check doc = none :=
  Option.eq_none_iff_forall_ne_some.2 fun d hd =>
    hnot d hd (h d (List.mem_filterMap.2 ⟨check, hcheck, hd⟩))

/-- **Where all that is found is tolerated, the fields certify the skill:** it is named by its
directory, and it is described. -/
theorem certifies_of_checks (h : ∀ d ∈ checks.filterMap fun check => check doc, Tolerated d) :
    Certifies doc.fields doc.directory := by
  have hname := eq_none_of_tolerated (by simp [checks]) (fun _ => not_tolerated_of_checkName) h
  have hdirectory :=
    eq_none_of_tolerated (by simp [checks]) (fun _ => not_tolerated_of_checkDirectoryName) h
  have hdescription :=
    eq_none_of_tolerated (by simp [checks]) (fun _ => not_tolerated_of_checkDescription) h
  obtain ⟨name, hget, hpattern⟩ := checkName_eq_none_iff.1 hname
  exact ⟨⟨name, hget, hpattern, (checkDirectoryName_eq_none_iff hget hpattern).1 hdirectory⟩,
    checkDescription_eq_none_iff.1 hdescription⟩

/-- **Where all that is found is tolerated, there is a document that certifies the
skill.** -/
theorem certifies_of_check {t : FileTree} {directory : Path} {settings : SkillSettings}
    (h : ∀ d ∈ check t.fileSystem directory settings, Tolerated d) :
    ∃ fields, HasFields t settings directory fields ∧ Certifies fields directory := by
  unfold check at h
  dsimp only at h
  split at h
  · split at h
    · next text htext =>
      obtain ⟨content, hfile, rfl⟩ := FileTree.readText_eq_ok_iff.1 htext
      unfold checkText at h
      split at h
      · exact absurd rfl (h _ (List.mem_append_right _ List.mem_cons_self)).1
      · next fields hfields =>
        exact ⟨fields, ⟨content, hfile, hfields⟩, certifies_of_checks fun d hd =>
          h d (List.mem_append_right _ hd)⟩
    · exact absurd rfl (h _ List.mem_cons_self).1
  · exact absurd rfl (h _ List.mem_cons_self).1

end Skill

namespace Lint

variable {t : FileTree} {settings : Settings} {root : Path} {timestamp : Text} {report : Report}
  {name : Bytes}

/-- Every subdirectory is a target: its name is listed, and its path leads to a directory. -/
theorem mem_discover_of_isSubdirectory (h : t.IsSubdirectory root name) :
    Path.join root name ∈ discover t.fileSystem settings .skill root := by
  rw [discover_eq_map]
  exact List.mem_map_of_mem (mem_documentNames_iff.2 ⟨h.1, FileTree.isDirectory_iff.2 h.2⟩)

/-- **A report without blockers and mismatches certifies unique names.**  Every entry of
the root's directory whose path from the root leads to a directory, links followed, has a
document whose frontmatter names it and describes it, and no two of them bear one name.
An entry whose path is too long to be followed is not found, so nothing is said of it. -/
theorem run_certifies_names (htop : t.top.WellFormed)
    (h : run t.fileSystem settings .skill root timestamp = .ok report)
    (hblocker : ∀ d ∈ report.diagnostics, d.severity ≠ .blocker)
    (hmismatch : ∀ d ∈ report.diagnostics, d.ruleId ≠ Skill.directoryMismatch.id) :
    (∀ name, t.IsSubdirectory root name →
      Skill.IsNamed t settings.skills (Path.join root name) name) ∧
    ∀ a b, t.IsSubdirectory root a → t.IsSubdirectory root b → a ≠ b →
      ∀ fields fields', Skill.HasFields t settings.skills (Path.join root a) fields →
        Skill.HasFields t settings.skills (Path.join root b) fields' →
        fields.get? "name" ≠ fields'.get? "name" := by
  have hnamed (name : Bytes) (hname : t.IsSubdirectory root name) :
      Skill.IsNamed t settings.skills (Path.join root name) name := by
    have htolerated (d : Diagnostic)
        (hd : d ∈ Skill.check t.fileSystem (Path.join root name) settings.skills) :
        Skill.Tolerated d := by
      have hmem : d ∈ report.diagnostics :=
        (mem_diagnostics_of_run h).2 ⟨_, mem_discover_of_isSubdirectory hname, hd⟩
      exact ⟨hblocker d hmem, hmismatch d hmem⟩
    obtain ⟨fields, hfields, ⟨called, hget, hpattern, hlast⟩, hdescription⟩ :=
      Skill.certifies_of_check htolerated
    have hproper : Path.IsName name := (FileTree.properlyNamed htop root).2 name hname.1
    rw [Path.lastName?_join hproper, Option.some.injEq] at hlast
    exact ⟨fields, called, hfields, hget, hlast, hpattern, hdescription⟩
  refine ⟨hnamed, fun a b ha hb hne fields fields' hfields hfields' heq => hne ?_⟩
  obtain ⟨other, called, hother, hget, hcalled, -⟩ := hnamed a ha
  obtain ⟨other', called', hother', hget', hcalled', -⟩ := hnamed b hb
  rw [hfields.unique hother, hfields'.unique hother', hget, hget'] at heq
  rw [hcalled, hcalled', Option.some.inj heq]

/-- The document of a skill called `name`. -/
def documentNamed (name : Text) : Bytes :=
  Utf8.encode (['-', '-', '-', '\n'] ++ "name: " ++ name ++ ['\n'] ++ "description: Reads." ++
    ['\n', '-', '-', '-', '\n'])

/-- Two skills, the second of them through a link to a directory of another name. -/
def twoSkills : FileTree :=
  ⟨.directory
    [("s", .directory
      [("a", .directory [("SKILL.md", .file (documentNamed "a"))]), ("b", .link "../c")]),
    ("c", .directory [("SKILL.md", .file (documentNamed "b"))])], []⟩

/-- The two skills are certified; the second bears the name of the link. -/
theorem run_certifies_names_twoSkills :
    (∀ name, twoSkills.IsSubdirectory "s" name →
      Skill.IsNamed twoSkills {} (Path.join "s" name) name) ∧
    ∀ a b, twoSkills.IsSubdirectory "s" a → twoSkills.IsSubdirectory "s" b → a ≠ b →
      ∀ fields fields', Skill.HasFields twoSkills {} (Path.join "s" a) fields →
        Skill.HasFields twoSkills {} (Path.join "s" b) fields' →
        fields.get? "name" ≠ fields'.get? "name" := by
  have htop : twoSkills.top.WellFormed := Node.everywhere_of_nodes (by decide)
  have hrun : run twoSkills.fileSystem {} .skill "s" [] = .ok ⟨.skill, "s", [], 2, []⟩ := by rfl
  exact run_certifies_names htop hrun (fun _ hd => absurd hd List.not_mem_nil)
    fun _ hd => absurd hd List.not_mem_nil

end Lint

end DocLint
