/-
# What a SARIF log says of its report

The SARIF format, SPEC_FULL.md §10.5, against the catalogue, §10.3.

Every diagnostic of a run is backed by the catalogue (`Lint.Backed`): its id names one
rule, whose severity it has, and its path is that of a document that was found.  The text
that the SARIF format prints keeps the link: read by the grammar of JSON, whoever reads it,
it is one log (`sarif_spells`), whose results stand in the order of the diagnostics, one for
each (`Shows`):

| of a result | is |
| --- | --- |
| `ruleId` | the id of the diagnostic |
| `ruleIndex` | where the rules of the driver list that id |
| `level` | that of the catalogue's severity (`levels`) |
| `uri` | the path as it is printed, slashes in place of backslashes |

The index is the delicate part: the log writes none for an id that the catalogue does
not list, and says nothing.  That this never happens rests on `Lint.cites_of_mem_validate`.
-/

import Mathlib.Data.List.Forall2
import DocLint.FileTree.Resolve
import DocLint.Proofs.Json.Printed
import DocLint.Proofs.Lint.Citations
import DocLint.Render.Sarif

namespace DocLint

/-- What stands behind a diagnostic of a run. -/
structure Lint.Backed (fs : FileSystem) (settings : Settings) (kind : Kind) (root : Path)
    (d : Diagnostic) : Prop where
  /-- One rule of the catalogue has the id, and its severity is the diagnostic's. -/
  rule : ∃ rule, (Catalogue.rulesFor kind).filter (·.id = d.ruleId) = [rule] ∧
    d.severity = rule.severity
  /-- The path is a target, or the document of a skill that is one. -/
  path : ∃ target ∈ discover fs settings kind root,
    d.path = target ∨ (kind = .skill ∧ d.path = Path.join target settings.skills.documentName)

namespace Render

namespace Sarif

/-- The levels, by the tags of the severities. -/
def levels : List (Text × Text) := [("P0", "error"), ("P1", "warning"), ("P2", "note")]

/-- `result` shows the diagnostic `d` in a log whose driver lists `rules`. -/
structure Shows (kind : Kind) (rules : List Json) (d : Diagnostic) (result : Json) : Prop where
  ruleId : result.member? "ruleId" = some (.string d.ruleId)
  ruleIndex : ∃ index entry, result.member? "ruleIndex" = some (.number index) ∧
    rules[index]? = some entry ∧ entry.member? "id" = some (.string d.ruleId)
  level : ∃ rule ∈ Catalogue.rulesFor kind, rule.id = d.ruleId ∧
    ∃ level, (rule.severity.tag, level) ∈ levels ∧ result.member? "level" = some (.string level)
  uri : ∃ locations location, result.member? "locations" = some locations ∧
    locations.item? 0 = some location ∧
    location.memberAt? ["physicalLocation", "artifactLocation", "uri"] =
      some (.string (d.path.display.map fun c => if c = '\\' then '/' else c))

/-- The results of a log show the diagnostics `ds`, one for each and in their order. -/
def Represents (kind : Kind) (log : Json) (ds : List Diagnostic) : Prop :=
  ∃ run results rules, log.member? "runs" = some (.array [run]) ∧
    run.member? "results" = some (.array results) ∧
    run.memberAt? ["tool", "driver", "rules"] = some (.array rules) ∧
    List.Forall₂ (Shows kind rules) ds results

variable {kind : Kind} {d : Diagnostic} {r : Rule}

/-- The level of a severity is in the table, so what a result is rated by is one of the three
levels that are listed. -/
theorem level_mem_levels (s : Severity) : (s.tag, level s) ∈ levels := by
  cases s with
  | blocker => exact .head _
  | warning => exact .tail _ (.head _)
  | info => exact .tail _ (.tail _ (.head _))

/-- **A rule of the catalogue has an index,** and the rule there has its id.  The index is the
place of the first rule with the id, and there is no second. -/
theorem exists_ruleIndex (h : r ∈ Catalogue.rulesFor kind) :
    ∃ index entry, ruleIndex? kind r.id = some index ∧
      (Catalogue.rulesFor kind)[index]? = some entry ∧ entry.id = r.id := by
  have hindex : ruleIndex? kind r.id = some _ :=
    List.findIdx?_eq_some_of_exists ⟨r, h, beq_self_eq_true r.id⟩
  have hentry := List.of_findIdx?_eq_some hindex
  split at hentry
  · next entry hget => exact ⟨_, entry, hindex, hget, beq_iff_eq.1 hentry⟩
  · cases hentry

/-- **A result shows its diagnostic,** where the diagnostic cites a rule of the kind.  Without
that the index would be missing. -/
theorem shows_result {path : Path} (hr : r ∈ Catalogue.rulesFor kind) (h : d.Cites r path) :
    Shows kind ((Catalogue.rulesFor kind).map rule) d (result kind d) := by
  obtain ⟨index, entry, hindex, hget, hid⟩ := exists_ruleIndex hr
  have hresult : result kind d = .object (resultMembers d ++ indexMember (some index)) := by
    rw [result, h.ruleId_eq, hindex]
  rw [hresult]
  refine ⟨rfl, ⟨index, rule entry, rfl, ?_, ?_⟩, ⟨r, hr, h.ruleId_eq.symm, _, ?_, rfl⟩,
    ⟨_, location d.path, rfl, rfl, rfl⟩⟩
  · rw [List.getElem?_map, hget, Option.map_some]
  · rw [h.ruleId_eq, ← hid]
    rfl
  · rw [h.severity_eq]
    exact level_mem_levels r.severity

/-- The log of a report represents it, result by result, where each diagnostic cites a rule of
its kind. -/
theorem represents_log {report : Report}
    (h : ∀ d ∈ report.diagnostics, ∃ r ∈ Catalogue.rulesFor report.kind, ∃ path, d.Cites r path) :
    Represents report.kind (log report) report.diagnostics := by
  refine ⟨_, _, _, rfl, rfl, rfl, ?_⟩
  rw [List.forall₂_map_right_iff, List.forall₂_same]
  intro d hd
  obtain ⟨r, hr, path, hcites⟩ := h d hd
  exact shows_result hr hcites

end Sarif

/-- **The SARIF document of a report spells its log,** and nothing else: one JSON value with a
newline behind it. -/
theorem sarif_spells (report : Report) :
    ∃ document, sarif report = document ++ ['\n'] ∧
      ∀ v, Json.Spells document v ↔ v = Sarif.log report :=
  ⟨(Sarif.log report).pretty, rfl, fun _ => Json.spells_print_iff .pretty⟩

end Render

namespace Lint

variable {fs : FileSystem} {settings : Settings} {kind : Kind} {root : Path} {timestamp : Text}
  {report : Report} {d : Diagnostic}

/-- A diagnostic that a rule of the kind made at a document that was found is backed: its id
names one rule of the catalogue, with its severity. -/
theorem backed_of_mem_validate {target : Path} (htarget : target ∈ discover fs settings kind root)
    (hd : d ∈ validate fs settings kind target) : Backed fs settings kind root d := by
  obtain ⟨rule, hrule, hcites⟩ := cites_of_mem_validate hd
  have hkey : d.ruleId = rule.id ∧ d.severity = rule.severity := by
    rcases hcites with h | h
    · exact ⟨h.ruleId_eq, h.severity_eq⟩
    · exact ⟨h.ruleId_eq, h.severity_eq⟩
  refine ⟨⟨rule, ?_, hkey.2⟩, target, htarget, ?_⟩
  · rw [hkey.1]
    exact Catalogue.filter_id_eq_singleton (Catalogue.nodup_ids_rulesFor kind) hrule
  · cases kind with
    | prompt => exact .inl (hcites.elim (·.path_eq) (·.path_eq))
    | skill => exact hcites.imp (·.path_eq) fun h => ⟨rfl, h.path_eq⟩

/-- The log of a run represents what the run found, since all that a run finds cites a rule. -/
theorem represents_log_of_run (h : run fs settings kind root timestamp = .ok report) :
    Render.Sarif.Represents kind (Render.Sarif.log report) report.diagnostics := by
  have hkind : report.kind = kind := by rw [report_eq_of_run h, Report.new]
  rw [← hkind]
  refine Render.Sarif.represents_log fun d hd => ?_
  obtain ⟨target, htarget, hd⟩ := (mem_diagnostics_of_run h).1 hd
  obtain ⟨rule, hrule, hcites⟩ := cites_of_mem_validate hd
  exact ⟨rule, hkind ▸ hrule, hcites.elim (⟨_, ·⟩) (⟨_, ·⟩)⟩

/-- **Every diagnostic is backed by the catalogue, and the printed log keeps the link.**  The
SARIF document of a run spells exactly one JSON value, and that value represents the
diagnostics of the run, one for each and in their order. -/
theorem run_backed_and_represented (h : run fs settings kind root timestamp = .ok report) :
    (∀ d ∈ report.diagnostics, Backed fs settings kind root d) ∧
      ∃ document log, Render.sarif report = document ++ ['\n'] ∧
        (∀ v, Json.Spells document v ↔ v = log) ∧
        Render.Sarif.Represents kind log report.diagnostics := by
  constructor
  · intro d hd
    obtain ⟨target, htarget, hd⟩ := (mem_diagnostics_of_run h).1 hd
    exact backed_of_mem_validate htarget hd
  · obtain ⟨document, htext, hspells⟩ := Render.sarif_spells report
    exact ⟨document, _, htext, hspells, represents_log_of_run h⟩

/-- A directory of skills, one of which lacks its document. -/
def withoutDocument : FileTree :=
  ⟨.directory [("s", .directory [("a", .directory [])])], []⟩

/-- The skill without a document is reported once, backed by the catalogue and
represented in the log that is printed. -/
theorem run_withoutDocument_backed_and_represented :
    ∃ report, run withoutDocument.fileSystem {} .skill "s" [] = .ok report ∧
      report.diagnostics.length = 1 ∧
      (∀ d ∈ report.diagnostics, Backed withoutDocument.fileSystem {} .skill "s" d) ∧
      ∃ document log, Render.sarif report = document ++ ['\n'] ∧
        (∀ v, Json.Spells document v ↔ v = log) ∧
        Render.Sarif.Represents .skill log report.diagnostics := by
  have hrun : run withoutDocument.fileSystem {} .skill "s" [] = .ok
      (.new .skill "s" [] 1
        [.new .blocker "skill/missing-skill-md" "missing SKILL.md" "s/a"]) := by
    rfl
  exact ⟨_, hrun, rfl, run_backed_and_represented hrun⟩

end Lint

end DocLint
