/-
# What the settings have a say in

SPEC_FULL.md §10.6, the precedence of roots, and §10.7, which settings there are.

A run is told all settings and reads few of them (`Settings.AgreeFor`).

| setting | run for prompts | run for skills |
| --- | --- | --- |
| suffix of prompt files | read | |
| name of a skill's document, longest document, longest description | | read |
| both roots | | |

The roots are for the command alone, which takes one where its command line names none.
So a command that names a root ends the same wherever the settings look for documents
(`execute_congr`).  There the settings may come from two files of one file system, or from
one file that is edited: the run itself must get the same answers (`SameAnswers`), and it
need not ask for that file.

Of what a run does read, the two limits act in one direction (`Lint.run_eases`).
-/

import DocLint.CommandLine.Run
import DocLint.FileTree.Resolve
import DocLint.Proofs.Lint.Limits
import DocLint.Proofs.Lint.Locality

namespace DocLint

/-- The settings that a run of a kind reads are the same. -/
def Settings.AgreeFor (kind : Kind) (settings settings' : Settings) : Prop :=
  match kind with
  | .prompt => settings.prompts.suffix = settings'.prompts.suffix
  | .skill =>
    settings.skills.fileName = settings'.skills.fileName ∧
      settings.skills.maxLines = settings'.skills.maxLines ∧
      settings.skills.maxDescriptionChars = settings'.skills.maxDescriptionChars

/-- The settings with other roots. -/
def Settings.withRoots (prompts skills : Path) (settings : Settings) : Settings where
  prompts := { settings.prompts with root := prompts }
  skills := { settings.skills with root := skills }

/-- No run reads the roots: they are for the command, which has used them before a run begins.
-/
theorem Settings.agreeFor_withRoots (kind : Kind) (prompts skills : Path) (settings : Settings) :
    AgreeFor kind settings (settings.withRoots prompts skills) := by
  cases kind with
  | prompt => rfl
  | skill => exact ⟨rfl, rfl, rfl⟩

namespace Skill

/-- **A skill is checked without regard to the root in the settings.**  Its name, its lines and
its characters are all that is looked at. -/
theorem check_congr {settings settings' : SkillSettings}
    (hname : settings.fileName = settings'.fileName)
    (hlines : settings.maxLines = settings'.maxLines)
    (hchars : settings.maxDescriptionChars = settings'.maxDescriptionChars) (fs : FileSystem)
    (directory : Path) : check fs directory settings = check fs directory settings' := by
  obtain ⟨root, fileName, maxLines, maxDescriptionChars⟩ := settings
  obtain ⟨root', fileName', maxLines', maxDescriptionChars'⟩ := settings'
  dsimp only at hname hlines hchars
  subst hname hlines hchars
  unfold check checkText
  simp only [filterMap_checks]
  rfl

end Skill

namespace Lint

variable {fs gs : FileSystem} {settings settings' : Settings} {kind : Kind} {root target : Path}

/-! ### Other settings -/

/-- Which paths are documents depends on the settings of the kind alone: on the suffix for
prompts, on nothing for skills. -/
theorem isDocument_congr (h : settings.AgreeFor kind settings') :
    isDocument fs settings kind = isDocument fs settings' kind := by
  cases kind with
  | prompt =>
    have hsuffix : settings.prompts.suffix = settings'.prompts.suffix := h
    funext path
    simp only [isDocument, hsuffix]
  | skill => rfl

/-- What is found in a document depends on the settings of the kind alone. -/
theorem validate_congr (h : settings.AgreeFor kind settings') :
    validate fs settings kind = validate fs settings' kind := by
  cases kind with
  | prompt => rfl
  | skill =>
    obtain ⟨hname, hlines, hchars⟩ := h
    funext target
    exact Skill.check_congr hname hlines hchars fs target

/-- **A run reads no setting of the other kind, and no root.**  So a settings file can be
changed there without a run noticing. -/
theorem run_congr (h : settings.AgreeFor kind settings') (fs : FileSystem) (root : Path)
    (timestamp : Text) :
    run fs settings kind root timestamp = run fs settings' kind root timestamp := by
  unfold run
  rw [discover_eq_filter, discover_eq_filter, isDocument_congr h, validate_congr h]

/-! ### Other answers to questions that are not asked -/

/-- A run over `root` gets the same answers from two file systems. -/
structure SameAnswers (fs gs : FileSystem) (settings : Settings) (kind : Kind) (root : Path) :
    Prop where
  root_eq : fs.kindAt root = gs.kindAt root
  names_eq : fs.names root = gs.names root
  children_eq : ∀ path ∈ children fs root, fs.kindAt path = gs.kindAt path
  documents_alike : ∀ target ∈ discover fs settings kind root,
    fs.AlikeAt (documentPath settings kind target) gs (documentPath settings kind target)

/-- The answers about the root and about what it holds decide which documents are found. -/
theorem SameAnswers.discover_eq (h : SameAnswers fs gs settings kind root) :
    discover fs settings kind root = discover gs settings kind root := by
  have hchildren : children fs root = children gs root := by
    rw [children, children, h.names_eq]
  exact discover_congr hchildren h.children_eq

/-- The answers about a document decide what is found in it. -/
theorem SameAnswers.validate_eq (h : SameAnswers fs gs settings kind root)
    (htarget : target ∈ discover fs settings kind root) :
    validate fs settings kind target = validate gs settings kind target := by
  have halike := h.documents_alike target htarget
  cases kind with
  | prompt =>
    rw [discover_eq_filter] at htarget
    have hread : fs.readText target = gs.readText target :=
      halike.readText_eq (leadsSomewhere_of_isDocument (List.mem_filter.1 htarget).2)
    simp only [validate, hread]
  | skill =>
    have hcheck := Skill.check_move (f := id) rfl rfl halike
    rw [Diagnostic.mapPath_id, List.map_id] at hcheck
    exact hcheck.symm

/-- **A run knows of a file system what it is answered.**  It asks about the root, about the
names in it and about the documents there, and about nothing else. -/
theorem SameAnswers.run_eq (h : SameAnswers fs gs settings kind root) (timestamp : Text) :
    run fs settings kind root timestamp = run gs settings kind root timestamp := by
  have hfound : (discover fs settings kind root).flatMap (validate fs settings kind) =
      (discover fs settings kind root).flatMap (validate gs settings kind) :=
    List.flatMap_congr fun target htarget => h.validate_eq htarget
  unfold run
  dsimp only
  rw [FileSystem.leadsSomewhere, FileSystem.leadsSomewhere, FileSystem.isDirectory,
    FileSystem.isDirectory, h.root_eq, hfound, h.discover_eq]

end Lint

namespace CommandLine

variable {fs gs : FileSystem} {settings settings' : Settings} {kind : Kind} {root : Path}
  {o : Options} {config : Option Path}

/-- **A command that names a root ends by what a run reads,** wherever its settings are and
whatever else they say. -/
theorem execute_congr (hroot : o.root = some root)
    (hload : Settings.load fs o.config = .ok settings)
    (hload' : Settings.load gs config = .ok settings') (hagree : settings.AgreeFor kind settings')
    (hanswers : Lint.SameAnswers fs gs settings kind root) (color : Bool) (timestamp : Text) :
    execute fs kind color timestamp o = execute gs kind color timestamp { o with config } := by
  unfold execute
  simp only [hload, hload', hroot, Option.getD_some]
  rw [hanswers.run_eq, Lint.run_congr hagree]

end CommandLine

open CommandLine

/-- **Settings are confined to what reads them.**  Runs for prompts read the suffix, runs
for skills three other settings, and a command that names a root reads none of the roots.
Of the three, higher limits take warnings away and nothing else. -/
theorem settings_confined (fs : FileSystem) (root : Path) :
    (∀ settings settings' : Settings, settings.prompts.suffix = settings'.prompts.suffix →
      ∀ timestamp, Lint.run fs settings .prompt root timestamp =
        Lint.run fs settings' .prompt root timestamp) ∧
    (∀ settings settings' : Settings, settings.skills.fileName = settings'.skills.fileName →
      settings.skills.maxLines = settings'.skills.maxLines →
      settings.skills.maxDescriptionChars = settings'.skills.maxDescriptionChars →
      ∀ timestamp, Lint.run fs settings .skill root timestamp =
        Lint.run fs settings' .skill root timestamp) ∧
    (∀ (gs : FileSystem) (kind : Kind) (color : Bool) (timestamp : Text) (o : Options)
      (config : Option Path) (settings : Settings) (prompts skills : Path),
      o.root = some root → Settings.load fs o.config = .ok settings →
      Settings.load gs config = .ok (settings.withRoots prompts skills) →
      Lint.SameAnswers fs gs settings kind root →
      execute fs kind color timestamp o = execute gs kind color timestamp { o with config }) ∧
    ∀ strict loose : Settings, strict.skills.fileName = loose.skills.fileName →
      strict.skills.maxLines ≤ loose.skills.maxLines →
      strict.skills.maxDescriptionChars ≤ loose.skills.maxDescriptionChars → ∀ timestamp,
      (∃ e, Lint.run fs strict .skill root timestamp = .error e ∧
        Lint.run fs loose .skill root timestamp = .error e) ∨
      ∃ report report', Lint.run fs strict .skill root timestamp = .ok report ∧
        Lint.run fs loose .skill root timestamp = .ok report' ∧
        report.documentsChecked = report'.documentsChecked ∧
        Diagnostic.Eases report.diagnostics report'.diagnostics := by
  refine ⟨fun settings settings' hsuffix => ?_, fun settings settings' hname hlines hchars => ?_,
    fun gs kind color timestamp o config settings prompts skills hroot hload hload' hanswers => ?_,
    fun strict loose hname hlines hchars => Lint.run_eases hname hlines hchars fs root⟩
  · have hagree : settings.AgreeFor .prompt settings' := hsuffix
    exact Lint.run_congr hagree fs root
  · have hagree : settings.AgreeFor .skill settings' := ⟨hname, hlines, hchars⟩
    exact Lint.run_congr hagree fs root
  · exact execute_congr hroot hload hload' (settings.agreeFor_withRoots kind prompts skills)
      hanswers color timestamp

/-- A prompt without frontmatter beside a skill of five lines, and a settings file. -/
def configured (document : Text) : FileTree :=
  ⟨.directory
    [("d", .directory
      [("a.prompt.md", .file []),
        ("s", .directory
          [("SKILL.md", .file (Utf8.encode "---\nname: s\ndescription: Reads.\n---\n\n"))])]),
      ("authoring-lint.toml", .file (Utf8.encode document))], []⟩

/-- A limit for skills is nothing to prompts, nor is a suffix of prompts to skills.  That
the root in the settings file is edited is not noticed where the command names one.  A limit
of five lines in place of four takes the one warning away. -/
theorem settings_confined_configured :
    let fs := (configured "[skills]\nroot = 'x'\n").fileSystem
    let gs := (configured "[skills]\nroot = 'y'\n").fileSystem
    let strict : Settings := { skills := { maxLines := 4 } }
    let loose : Settings := { skills := { maxLines := 5 } }
    let other : Settings :=
      { prompts := { suffix := ".md" }, skills := { root := "x", maxLines := 5 } }
    let o : Options := { root := some "d" }
    Lint.run fs strict .prompt "d" [] = Lint.run fs loose .prompt "d" [] ∧
    Lint.run fs loose .skill "d" [] = Lint.run fs other .skill "d" [] ∧
    (Settings.load fs none ≠ Settings.load gs none ∧
      execute fs .skill false [] o = execute gs .skill false [] o) ∧
    ∃ report report', Lint.run fs strict .skill "d" [] = .ok report ∧
      Lint.run fs loose .skill "d" [] = .ok report' ∧
      report.documentsChecked = report'.documentsChecked ∧
      Diagnostic.Eases report.diagnostics report'.diagnostics ∧
      report.diagnostics.map (·.ruleId) = [Skill.tooLong.id] ∧ report'.diagnostics = [] := by
  intro fs gs strict loose other o
  obtain ⟨hprompt, hskill, hroots, hlimits⟩ := settings_confined fs "d"
  have hload : Settings.load fs none = .ok { skills := { root := "x" } } := by decide +kernel
  have hload' : Settings.load gs none = .ok { skills := { root := "y" } } := by decide +kernel
  have hanswers : Lint.SameAnswers fs gs { skills := { root := "x" } } .skill "d" := by
    have hchildren : Lint.children fs "d" = ["d/a.prompt.md", "d/s"] := by decide +kernel
    have hdiscover : Lint.discover fs { skills := { root := "x" } } .skill "d" = ["d/s"] := by
      decide +kernel
    refine ⟨by decide +kernel, by decide +kernel, ?_, ?_⟩
    · rw [hchildren]
      decide +kernel
    · intro target htarget
      rw [hdiscover] at htarget
      obtain rfl := List.mem_singleton.1 htarget
      exact ⟨by decide +kernel, fun _ => by decide +kernel⟩
  have hstrict : (Lint.run fs strict .skill "d" []).map (·.diagnostics.map (·.ruleId)) =
      .ok [Skill.tooLong.id] := by decide +kernel
  have hloose : (Lint.run fs loose .skill "d" []).map (·.diagnostics) = .ok [] := by
    decide +kernel
  refine ⟨hprompt _ _ rfl [], hskill _ _ rfl rfl rfl [], ⟨?_, ?_⟩, ?_⟩
  · rw [hload, hload']
    decide
  · exact hroots gs .skill false [] o none _ ".github/prompts" "y" rfl hload hload' hanswers
  · rcases hlimits strict loose rfl (by decide) (by decide) [] with
      ⟨e, herror, -⟩ | ⟨report, report', hreport, hreport', hchecked, heases⟩
    · rw [herror] at hstrict
      cases hstrict
    · rw [hreport] at hstrict
      rw [hreport'] at hloose
      exact ⟨report, report', hreport, hreport', hchecked, heases, Except.ok.inj hstrict,
        Except.ok.inj hloose⟩

end DocLint
