/-
# A diagnostic is one line

One line for each diagnostic, SPEC_FULL.md §4.5 and §6.

No document can forge a line of a report or break one in two.  What stands in a diagnostic
is written by the library, or is one of four kinds of text, none of which holds a newline:

| text | why it is on one line |
| --- | --- |
| a value of a field | it was read from a line (`newline_not_mem_of_extract`) |
| a path | the root and the names under it are on one line (`newline_not_mem_join`), and so it is printed (`newline_mem_display_iff`) |
| the name of a document, from the settings | it is asked to be |
| a count | it is written in digits (`newline_not_mem_ofNat`) |

So a report cut at its newlines is the lines of its diagnostics (`pieces_lines_of_run`).
That the settings and the names are on one line has to be asked: a newline is a byte that a
name may have.
-/

import DocLint.FileTree.Resolve
import DocLint.Proofs.Frontmatter.RoundTrip
import DocLint.Proofs.Lint.Citations
import DocLint.Proofs.Lint.Discovery
import DocLint.Proofs.Prompt.Findings
import DocLint.Proofs.Skill.Findings
import DocLint.Proofs.Text.Decoding
import DocLint.Render.Lines

namespace DocLint

open Text

/-- No part of the diagnostic breaks its line. -/
structure Diagnostic.IsOneLine (d : Diagnostic) : Prop where
  message : '\n' ∉ d.message
  path : '\n' ∉ d.path.display
  observed : ∀ observed, d.observed = some observed → '\n' ∉ observed

/-- A diagnostic whose parts have no newline is one line, since nothing else is put between
them. -/
theorem Diagnostic.IsOneLine.newline_not_mem_line {d : Diagnostic} (h : d.IsOneLine) :
    '\n' ∉ d.line := by
  have htag : '\n' ∉ d.severity.tag := by
    cases d.severity <;> decide +kernel
  have hobserved := h.observed
  unfold Diagnostic.line Diagnostic.detail
  cases ho : d.observed with
  | none => simp [htag, h.message, h.path]
  | some observed => simp [htag, h.message, h.path, hobserved observed ho]

/-- A newline is printed exactly where a path has one: no ill-formed bytes are shown as a
newline, and none swallow it. -/
theorem Path.newline_mem_display_iff {p : Path} : '\n' ∈ p.display ↔ 0x0A ∈ p :=
  Utf8.mem_decodeLossy_iff (by decide)

section Violation

variable {message observed : Text} {path : Path}

/-- A diagnostic that measures nothing is one line where its message and its path are. -/
theorem Diagnostic.isOneLine_new (severity : Severity) (ruleId : Text) (hmessage : '\n' ∉ message)
    (hpath : 0x0A ∉ path) : (Diagnostic.new severity ruleId message path).IsOneLine :=
  ⟨hmessage, mt Path.newline_mem_display_iff.1 hpath, nofun⟩

/-- A report at a path without newline is one line if its message is. -/
theorem Rule.isOneLine_violation (r : Rule) (hmessage : '\n' ∉ message) (hpath : 0x0A ∉ path) :
    (r.violation message path).IsOneLine :=
  ⟨hmessage, mt Path.newline_mem_display_iff.1 hpath, nofun⟩

/-- A report with a measured value is one line if the value is, too. -/
theorem Rule.isOneLine_violationWith (r : Rule) (hmessage : '\n' ∉ message) (hpath : 0x0A ∉ path)
    (hobserved : '\n' ∉ observed) : (r.violationWith message path observed).IsOneLine :=
  ⟨hmessage, mt Path.newline_mem_display_iff.1 hpath, fun _ ho => Option.some.inj ho ▸ hobserved⟩

end Violation

/-! ### The texts in a diagnostic -/

theorem Text.newline_not_mem_ofNat (n : Nat) : '\n' ∉ ofNat n := fun h =>
  absurd (Nat.isDigit_of_mem_toDigits (by decide) (by decide) h) (by decide)

/-- What is said of a file error is one line, whichever it is. -/
theorem FileError.newline_not_mem_message (e : FileError) : '\n' ∉ e.message := by
  cases e <;> decide +kernel

/-- Why a document cannot be read is said on one line, so only its path could break it. -/
theorem Diagnostic.isOneLine_unreadable (ruleId : Text) {path : Path} (e : FileError)
    (hpath : 0x0A ∉ path) : (Diagnostic.unreadable ruleId path e).IsOneLine :=
  ⟨(by decide +kernel : '\n' ∉ ("unreadable file" : Text)), mt Path.newline_mem_display_iff.1 hpath,
    fun _ ho => Option.some.inj ho ▸ e.newline_not_mem_message⟩

/-- A message is a text put between two others, and each of the three is on one line. -/
theorem newline_not_mem_between {before t after : Text} (hbefore : '\n' ∉ before) (ht : '\n' ∉ t)
    (hafter : '\n' ∉ after) : '\n' ∉ before ++ t ++ after :=
  List.not_mem_append (List.not_mem_append hbefore ht) hafter

/-- A name joined to a path brings in no newline that was not in one of them. -/
theorem Path.newline_not_mem_join {base p : Path} (hbase : 0x0A ∉ base) (hp : 0x0A ∉ p) :
    0x0A ∉ join base p := by
  unfold join
  split
  · exact hp
  · split
    · exact List.not_mem_append hbase hp
    · exact List.not_mem_append hbase (List.not_mem_cons_of_ne_of_not_mem (by decide) hp)

/-- The last name of a path is a part of it, and is printed on one line as the path is. -/
theorem Path.newline_not_mem_lastName {p : Path} (hp : 0x0A ∉ p) :
    '\n' ∉ ((lastName? p).map display).getD [] := by
  cases hname : lastName? p with
  | none => exact List.not_mem_nil
  | some name =>
    obtain ⟨hlast, -⟩ := Option.filter_eq_some_iff.1 hname
    have hpiece : name ∈ Path.pieces p := (List.mem_filter.1 (List.mem_of_getLast? hlast)).1
    exact fun hmem => hp (mem_of_mem_splitOn hpiece (newline_mem_display_iff.1 hmem))

/-! ### The findings in a document -/

section Prompts

variable {path : Path} {text : Text} {x : Diagnostic}

/-- **What is reported of a prompt is one line,** whatever its text holds: of that only a name
gets into a message, and a name that was read from a line has no newline. -/
theorem Prompt.isOneLine_of_mem_check (hpath : 0x0A ∉ path) (hx : x ∈ Prompt.check path text) :
    x.IsOneLine := by
  unfold Prompt.check at hx
  split at hx
  · rw [List.mem_singleton.1 hx]
    exact Diagnostic.isOneLine_new _ _ (by decide +kernel) hpath
  · next fields hfields =>
    simp only [Prompt.filterMap_checks, List.mem_append, Option.mem_toList] at hx
    rcases hx with hx | hx | hx | hx
    · rcases Prompt.eq_of_checkName hx with rfl | ⟨name, hname, rfl⟩
      · exact Rule.isOneLine_violation _ (by decide +kernel) hpath
      · have hvalue : '\n' ∉ name := Frontmatter.newline_not_mem_of_extract hfields hname
        exact Rule.isOneLine_violation _
          (newline_not_mem_between (by decide +kernel) hvalue (by decide +kernel)) hpath
    · rw [Prompt.eq_of_checkDescription hx]
      exact Rule.isOneLine_violation _ (by decide +kernel) hpath
    · rcases Prompt.eq_of_checkInputVariables hx with ⟨rfl, -⟩ | ⟨rfl, -⟩ <;>
        exact Rule.isOneLine_violation _ (by decide +kernel) hpath
    · rw [Prompt.eq_of_checkOutputSection hx]
      exact Rule.isOneLine_violation _ (by decide +kernel) hpath

end Prompts

section Skills

variable {directory file : Path} {text : Text} {settings : SkillSettings} {x : Diagnostic}

/-- The number of lines is reported in one line, if the name of the document has none to break
it. -/
theorem Skill.isOneLine_of_checkLineCount (hfile : 0x0A ∉ file) (hname : '\n' ∉ settings.fileName)
    (h : Skill.checkLineCount file text settings = some x) : x.IsOneLine := by
  obtain ⟨-, rfl⟩ := Skill.eq_of_checkLineCount h
  have hopens : '\n' ∉ settings.fileName ++ (" too long (>" : Text) :=
    List.not_mem_append hname (by decide +kernel)
  exact Rule.isOneLine_violationWith _
    (newline_not_mem_between hopens (newline_not_mem_ofNat _) (by decide +kernel)) hfile
    (List.not_mem_append (newline_not_mem_ofNat _) (by decide +kernel))

/-- What the checks of the fields find is on one line, where the values and the paths
are. -/
theorem Skill.isOneLine_of_mem_checks {d : Skill.Document}
    (hfields : ∀ key value, d.fields.get? key = some value → '\n' ∉ value)
    (hdirectory : 0x0A ∉ d.directory) (hfile : 0x0A ∉ d.file)
    (hx : x ∈ Skill.checks.filterMap fun check => check d) : x.IsOneLine := by
  simp only [Skill.filterMap_checks, List.mem_append, Option.mem_toList] at hx
  rcases hx with hx | hx | hx | hx
  · rcases Skill.eq_of_checkName hx with rfl | ⟨name, hname, rfl⟩
    · exact Rule.isOneLine_violation _ (by decide +kernel) hfile
    · exact Rule.isOneLine_violation _
        (newline_not_mem_between (by decide +kernel) (hfields _ _ hname) (by decide +kernel)) hfile
  · obtain ⟨name, hname, rfl⟩ := Skill.eq_of_checkDirectoryName hx
    have hdiffers : '\n' ∉ ("directory name '" ++
        ((Path.lastName? d.directory).map Path.display).getD [] ++
        "' differs from skill name '" : Text) :=
      newline_not_mem_between (by decide +kernel) (Path.newline_not_mem_lastName hdirectory)
        (by decide +kernel)
    exact Rule.isOneLine_violation _
      (newline_not_mem_between hdiffers (hfields _ _ hname) (by decide +kernel)) hdirectory
  · rw [Skill.eq_of_checkDescription hx]
    exact Rule.isOneLine_violation _ (by decide +kernel) hfile
  · obtain ⟨description, -, -, rfl⟩ := Skill.eq_of_checkDescriptionLength hx
    exact Rule.isOneLine_violationWith _
      (newline_not_mem_between (by decide +kernel) (newline_not_mem_ofNat _) (by decide +kernel))
      hfile (List.not_mem_append (newline_not_mem_ofNat _) (by decide +kernel))

/-- What is reported of a text is one line, whatever the text holds. -/
theorem Skill.isOneLine_of_mem_checkText (hdirectory : 0x0A ∉ directory) (hfile : 0x0A ∉ file)
    (hname : '\n' ∉ settings.fileName)
    (hx : x ∈ Skill.checkText directory file text settings) : x.IsOneLine := by
  unfold Skill.checkText at hx
  rcases List.mem_append.1 hx with hx | hx
  · exact Skill.isOneLine_of_checkLineCount hfile hname (Option.mem_toList.1 hx)
  · split at hx
    · rw [List.mem_singleton.1 hx]
      exact Diagnostic.isOneLine_new _ _ (by decide +kernel) hfile
    · next fields hfields =>
      exact Skill.isOneLine_of_mem_checks
        (fun _ _ hvalue => Frontmatter.newline_not_mem_of_extract hfields hvalue) hdirectory hfile hx

/-- **What is reported of a skill is one line,** if its directory and the name of its document
are. -/
theorem Skill.isOneLine_of_mem_check {fs : FileSystem} (hdirectory : 0x0A ∉ directory)
    (hname : '\n' ∉ settings.fileName) (hx : x ∈ Skill.check fs directory settings) :
    x.IsOneLine := by
  have hdocument : 0x0A ∉ settings.documentName :=
    mt (Utf8.mem_encode_iff (c := '\n') (by decide)).1 hname
  have hfile : 0x0A ∉ Path.join directory settings.documentName :=
    Path.newline_not_mem_join hdirectory hdocument
  unfold Skill.check at hx
  dsimp only at hx
  split at hx
  · split at hx
    · exact Skill.isOneLine_of_mem_checkText hdirectory hfile hname hx
    · next e _ =>
      rw [List.mem_singleton.1 hx]
      exact Diagnostic.isOneLine_unreadable _ e hfile
  · rw [List.mem_singleton.1 hx]
    exact Diagnostic.isOneLine_new _ _ (List.not_mem_append (by decide +kernel) hname) hdirectory

end Skills

/-! ### The report -/

namespace Lint

variable {fs : FileSystem} {settings : Settings} {kind : Kind} {root target : Path}
  {timestamp : Text} {report : Report} {x : Diagnostic}

/-- What is reported of a document is one line, for both kinds, if its path is and the name of a
skill's document. -/
theorem isOneLine_of_mem_validate (htarget : 0x0A ∉ target)
    (hname : '\n' ∉ settings.skills.fileName) (hx : x ∈ validate fs settings kind target) :
    x.IsOneLine := by
  unfold validate at hx
  cases kind with
  | prompt =>
    dsimp only at hx
    split at hx
    · exact Prompt.isOneLine_of_mem_check htarget hx
    · next e _ =>
      rw [List.mem_singleton.1 hx]
      exact Diagnostic.isOneLine_unreadable _ e htarget
  | skill => exact Skill.isOneLine_of_mem_check htarget hname hx

/-- **Whatever the documents hold,** each diagnostic of a run is one line.  Only the root, the
names under it and one setting have a say. -/
theorem isOneLine_of_run (hroot : 0x0A ∉ root) (hnames : ∀ name ∈ fs.names root, 0x0A ∉ name)
    (hname : '\n' ∉ settings.skills.fileName)
    (hrun : run fs settings kind root timestamp = .ok report) (hx : x ∈ report.diagnostics) :
    x.IsOneLine := by
  obtain ⟨target, htarget, hx⟩ := (mem_diagnostics_of_run hrun).1 hx
  rw [discover_eq_map] at htarget
  obtain ⟨name, hmem, rfl⟩ := List.mem_map.1 htarget
  have hlisted : 0x0A ∉ name := hnames name (mem_documentNames_iff.1 hmem).1
  exact isOneLine_of_mem_validate (Path.newline_not_mem_join hroot hlisted) hname hx

end Lint

namespace Render

/-- Lines without newlines in them are what their text is cut into; the last newline has
nothing behind it. -/
theorem splitOn_flatMap_lines {ds : List Diagnostic} (h : ∀ d ∈ ds, d.IsOneLine) :
    List.splitOn '\n' (ds.flatMap fun d => diagnosticLine false d ++ ['\n']) =
      ds.map Diagnostic.line ++ [[]] := by
  induction ds with
  | nil => rfl
  | cons d ds ih =>
    obtain ⟨hd, hds⟩ := List.forall_mem_cons.1 h
    rw [List.flatMap_cons, diagnosticLine_false, List.append_assoc, List.singleton_append,
      List.splitOn_append_cons_self_of_not_mem hd.newline_not_mem_line, ih hds, List.map_cons,
      List.cons_append]

end Render

/-- **No document forges a line.**  A report cut at its newlines is the lines of its
diagnostics, in their order, and nothing behind the last.  What has a say in this is asked for:
the root, the names under it and the name of a skill's document are each on one line. -/
theorem Lint.pieces_lines_of_run {fs : FileSystem} {settings : Settings} {kind : Kind} {root : Path}
    {timestamp : Text} {report : Report} (hroot : 0x0A ∉ root)
    (hnames : ∀ name ∈ fs.names root, 0x0A ∉ name) (hname : '\n' ∉ settings.skills.fileName)
    (hrun : run fs settings kind root timestamp = .ok report) (hfound : report.diagnostics ≠ []) :
    List.splitOn '\n' (Render.lines false report) =
      report.diagnostics.map Diagnostic.line ++ [[]] := by
  rw [Render.lines_of_ne_nil false hfound]
  exact Render.splitOn_flatMap_lines fun d hd => isOneLine_of_run hroot hnames hname hrun hd

/-- A skill whose name has a carriage return, a line of a report and a byte that is no
UTF-8 in it. -/
def forgingSkill : FileTree :=
  ⟨.directory [("a", .directory [("SKILL.md",
    .file (Utf8.encode "---\nname: 'x'\rP0 forged: y" ++ [0xFF] ++ Utf8.encode "\n---\n"))])], []⟩

/-- There are three findings in it, and its report has three lines. -/
theorem Lint.pieces_lines_of_run_forgingSkill :
    0x0A ∉ ("." : Path) ∧ (∀ name ∈ forgingSkill.fileSystem.names ".", 0x0A ∉ name) ∧
      '\n' ∉ ({} : Settings).skills.fileName ∧
      ∃ report, run forgingSkill.fileSystem {} .skill "." [] = .ok report ∧
        report.diagnostics.length = 3 ∧
        List.splitOn '\n' (Render.lines false report) =
          report.diagnostics.map Diagnostic.line ++ [[]] := by
  have hnames : ∀ name ∈ forgingSkill.fileSystem.names ".", 0x0A ∉ name := by decide +kernel
  have hname : '\n' ∉ ({} : Settings).skills.fileName := by decide +kernel
  obtain ⟨report, hrun, hlength⟩ : ∃ report,
      run forgingSkill.fileSystem {} .skill "." [] = .ok report ∧
        report.diagnostics.length = 3 := ⟨_, rfl, by decide +kernel⟩
  have hfound : report.diagnostics ≠ [] := List.ne_nil_of_length_pos (by omega)
  exact ⟨by decide, hnames, hname, report, hrun, hlength,
    pieces_lines_of_run (by decide) hnames hname hrun hfound⟩

end DocLint
