/-
# A report as JSON loses nothing

The JSON format, SPEC_FULL.md §10.5, and the record of a report, §10.2.

What stands in a report comes back out of its JSON.  The document of the JSON format spells one
value, and the value shows the report (`Shows`): every field of it, every diagnostic in its
place, a verdict, the counts, and the lines that the text format prints.  So the report is
known from the document, whoever reads it (`json_spells`).

| member | shows |
| --- | --- |
| `kind`, `root`, `timestamp`, `documents_checked` | the fields of the report |
| `diagnostics` | its diagnostics, each by its fields; `null` for what was not observed |
| `passed`, `summary` | the verdict, and how many diagnostics there are of each severity |
| `line` of a diagnostic | its line in the text format |

The first two rows are all there is where a report is written as a value of its own
(`recordOf?`), and they are enough to know it by (`record_spells`).

All this is about reports whose paths are UTF-8 (`HasUtf8Paths`).  No other report has a
document (`exists_json?_iff`), which is not the same as losing something: it is asked for in
vain.
-/

import DocLint.Proofs.Json.Printed
import DocLint.Proofs.Report.Canonical
import DocLint.Proofs.Text.Decoding
import DocLint.Render.Data
import DocLint.Render.Lines
import Mathlib.Data.List.Forall2

namespace DocLint

/-- The root of the report and the paths of its diagnostics spell texts. -/
structure Report.HasUtf8Paths (r : Report) : Prop where
  root : ∃ t, r.root = Utf8.encode t
  diagnostics : ∀ d ∈ r.diagnostics, ∃ t, d.path = Utf8.encode t

namespace Render

/-- `item` shows the diagnostic `d`. -/
structure ShowsDiagnostic (d : Diagnostic) (item : Json) : Prop where
  severity : item.member? "severity" = some (.string d.severity.tag)
  ruleId : item.member? "rule_id" = some (.string d.ruleId)
  message : item.member? "message" = some (.string d.message)
  /-- The text under `path` is the one that the bytes of the path spell. -/
  path : ∃ t, item.member? "path" = some (.string t) ∧ d.path = Utf8.encode t
  observed : ∀ o, item.member? "observed" = some (.string o) ↔ d.observed = some o
  /-- There is `null` where nothing was observed, and nowhere else. -/
  absent : item.member? "observed" = some .null ↔ d.observed = none

/-- `v` shows the fields of the report `r`. -/
structure ShowsFields (r : Report) (v : Json) : Prop where
  kind : v.member? "kind" = some (.string r.kind.name)
  /-- The text under `root` is the one that the bytes of the root spell. -/
  root : ∃ t, v.member? "root" = some (.string t) ∧ r.root = Utf8.encode t
  timestamp : v.member? "timestamp" = some (.string r.timestamp)
  documentsChecked : v.member? "documents_checked" = some (.number r.documentsChecked)
  diagnostics : ∃ items, v.member? "diagnostics" = some (.array items) ∧
    List.Forall₂ ShowsDiagnostic r.diagnostics items

/-- `v` shows the report `r`, and with it what the other outputs say of it. -/
structure Shows (r : Report) (v : Json) : Prop extends ShowsFields r v where
  /-- The report passes where all counts are zero, and every diagnostic is counted once. -/
  verdict : ∃ passed p0 p1 p2, v.member? "passed" = some (.bool passed) ∧
    v.memberAt? ["summary", "p0"] = some (.number p0) ∧
    v.memberAt? ["summary", "p1"] = some (.number p1) ∧
    v.memberAt? ["summary", "p2"] = some (.number p2) ∧
    (passed = true ↔ p0 = 0 ∧ p1 = 0 ∧ p2 = 0) ∧ p0 + p1 + p2 = r.diagnostics.length ∧
    p0 = r.diagnostics.countP (·.severity = .blocker) ∧
    p1 = r.diagnostics.countP (·.severity = .warning) ∧
    p2 = r.diagnostics.countP (·.severity = .info)
  /-- The lines are those of the text format, where there is any. -/
  lines : r.diagnostics ≠ [] → ∃ items lines, v.member? "diagnostics" = some (.array items) ∧
    List.Forall₂ (fun line item => item.member? "line" = some (.string line)) lines items ∧
    Render.lines false r = lines.flatMap (· ++ ['\n'])

/-! ### The value shows the report -/

variable {d d' : Diagnostic} {r r' : Report} {v item : Json} {text path : Text}

/-- A path has a text exactly where it is the encoding of that text.  So it has at most one, and
none where its bytes are no UTF-8. -/
theorem text?_eq_some_iff {p : Path} : p.text? = some text ↔ p = Utf8.encode text :=
  Utf8.decode?_eq_some_iff

/-- **The members of a diagnostic show it,** whatever stands behind them.  The document and the
record have these members in common. -/
theorem showsDiagnostic_members (hpath : d.path = Utf8.encode path) (more : List (Text × Json)) :
    ShowsDiagnostic d (.object (diagnosticMembers d path ++ more)) := by
  have hobserved : (Json.object (diagnosticMembers d path ++ more)).member? "observed" =
      some (.ofText? d.observed) := rfl
  refine ⟨rfl, rfl, rfl, ⟨path, rfl, hpath⟩, fun o => ?_, ?_⟩
  · rw [hobserved]
    cases d.observed <;> simp [Json.ofText?]
  · rw [hobserved]
    cases d.observed <;> simp [Json.ofText?]

/-- The entry of a diagnostic in a document shows the diagnostic and the line that the text
format writes for it. -/
theorem showsDiagnostic_of_diagnosticData? (h : diagnosticData? d = some item) :
    ShowsDiagnostic d item ∧ item.member? "line" = some (.string d.line) := by
  obtain ⟨path, hpath, rfl⟩ := Option.map_eq_some_iff.1 h
  exact ⟨showsDiagnostic_members (text?_eq_some_iff.1 hpath) _, rfl⟩

/-- The record of a diagnostic shows the diagnostic, field by field, with its path as the text
that the bytes of the path spell. -/
theorem showsDiagnostic_of_diagnosticRecord? (h : diagnosticRecord? d = some item) :
    ShowsDiagnostic d item := by
  obtain ⟨path, hpath, rfl⟩ := Option.map_eq_some_iff.1 h
  have hshows := showsDiagnostic_members (text?_eq_some_iff.1 hpath) []
  rwa [List.append_nil] at hshows

/-- All counts are zero where nothing was found, so a document's verdict and its counts agree.
-/
theorem passed_iff_counts (r : Report) :
    r.passed = true ↔ r.counts.blockers = 0 ∧ r.counts.warnings = 0 ∧ r.counts.infos = 0 := by
  have htotal : r.counts.blockers + r.counts.warnings + r.counts.infos = r.diagnostics.length :=
    r.total_counts
  rw [Report.passed, List.isEmpty_iff, ← List.length_eq_zero_iff]
  omega

/-- **The value of a report shows it:** its fields, and what the other outputs say of it. -/
theorem shows_of_dataOf? (h : dataOf? r = some v) : Shows r v := by
  obtain ⟨root, hroot, h⟩ := Option.bind_eq_some_iff.1 h
  obtain ⟨items, hitems, h⟩ := Option.bind_eq_some_iff.1 h
  obtain rfl := Option.some.inj h
  have hshows := mapM_eq_some_iff.1 hitems
  refine ⟨⟨rfl, ⟨root, rfl, text?_eq_some_iff.1 hroot⟩, rfl, rfl, items, rfl, ?_⟩, ?_,
    fun hfound => ⟨items, r.diagnostics.map Diagnostic.line, rfl, ?_, ?_⟩⟩
  · exact hshows.imp fun _ _ h => (showsDiagnostic_of_diagnosticData? h).1
  · exact ⟨r.passed, r.counts.blockers, r.counts.warnings, r.counts.infos, rfl, rfl, rfl, rfl,
      passed_iff_counts r, r.total_counts, by rw [Report.counts_eq], by rw [Report.counts_eq],
      by rw [Report.counts_eq]⟩
  · rw [List.forall₂_map_left_iff]
    exact hshows.imp fun _ _ h => (showsDiagnostic_of_diagnosticData? h).2
  · rw [lines_of_ne_nil false hfound, List.flatMap_map]
    rfl

/-- **The record of a report shows its fields,** and holds nothing that could be worked out from
them. -/
theorem showsFields_of_recordOf? (h : recordOf? r = some v) : ShowsFields r v := by
  obtain ⟨root, hroot, h⟩ := Option.bind_eq_some_iff.1 h
  obtain ⟨items, hitems, h⟩ := Option.bind_eq_some_iff.1 h
  obtain rfl := Option.some.inj h
  refine ⟨rfl, ⟨root, rfl, text?_eq_some_iff.1 hroot⟩, rfl, rfl, items, rfl, ?_⟩
  exact (mapM_eq_some_iff.1 hitems).imp fun _ _ h => showsDiagnostic_of_diagnosticRecord? h

/-! ### Which reports have a value -/

/-- The paths of a report are read before anything is written, and nothing else can fail.  The
document and the record are both made in this way. -/
theorem exists_items_iff {f : Diagnostic → Option Json} {g : Text → List Json → Json}
    (hf : ∀ d, (∃ item, f d = some item) ↔ ∃ t, d.path = Utf8.encode t) :
    (∃ v, (do
      let root ← r.root.text?
      let items ← r.diagnostics.mapM f
      some (g root items)) = some v) ↔ r.HasUtf8Paths := by
  constructor
  · rintro ⟨v, h⟩
    obtain ⟨root, hroot, h⟩ := Option.bind_eq_some_iff.1 h
    obtain ⟨items, hitems, -⟩ := Option.bind_eq_some_iff.1 h
    exact ⟨⟨root, text?_eq_some_iff.1 hroot⟩, fun d hd =>
      (hf d).1 (exists_mapM_eq_some_iff.1 ⟨items, hitems⟩ d hd)⟩
  · rintro ⟨⟨root, hroot⟩, hpaths⟩
    obtain ⟨items, hitems⟩ := exists_mapM_eq_some_iff.2 fun d hd => (hf d).2 (hpaths d hd)
    rw [text?_eq_some_iff.2 hroot, hitems]
    exact ⟨_, rfl⟩

/-- Whatever is made of the text of a path is there exactly where the path has one; nothing else
can keep a report from being shown. -/
theorem exists_map_text?_iff {α : Type} {p : Path} {g : Text → α} :
    (∃ item, p.text?.map g = some item) ↔ ∃ t, p = Utf8.encode t := by
  simp [Option.map_eq_some_iff, text?_eq_some_iff]

/-- **A report can be shown as a document exactly where its paths are UTF-8:** the root, and the
path of every diagnostic. -/
theorem exists_dataOf?_iff : (∃ v, dataOf? r = some v) ↔ r.HasUtf8Paths :=
  exists_items_iff fun _ => exists_map_text?_iff

/-- The two kinds are called differently, so the name in a document tells which it was. -/
theorem kind_eq_of_name {a b : Kind} (h : a.name = b.name) : a = b := by
  cases a <;> cases b <;> first | rfl | exact absurd h (by decide +kernel)

/-- A member holds one text, so two reports that are shown by the same value agree on it. -/
theorem eq_of_member? {key s t : Text} (hs : item.member? key = some (.string s))
    (ht : item.member? key = some (.string t)) : s = t :=
  Json.string.inj (Option.some.inj (hs.symm.trans ht))

/-- An entry shows one diagnostic at most: each part of it is in a member of its own. -/
theorem ShowsDiagnostic.unique (h : ShowsDiagnostic d item) (h' : ShowsDiagnostic d' item) :
    d = d' := by
  have hseverity : d.severity = d'.severity := by
    have htag : d.severity.tag = d'.severity.tag := eq_of_member? h.severity h'.severity
    rw [← Option.some.injEq, ← Severity.ofTag?_tag, htag, Severity.ofTag?_tag]
  have hpath : d.path = d'.path := by
    obtain ⟨t, ht, hpath⟩ := h.path
    obtain ⟨t', ht', hpath'⟩ := h'.path
    rw [hpath, hpath', eq_of_member? ht ht']
  have hobserved : d.observed = d'.observed :=
    Option.ext fun o => (h.observed o).symm.trans (h'.observed o)
  cases d
  cases d'
  simp only [Diagnostic.mk.injEq]
  exact ⟨hseverity, eq_of_member? h.ruleId h'.ruleId, eq_of_member? h.message h'.message, hpath,
    hobserved⟩

/-- **A value shows the fields of one report,** so nothing of a report is lost in a value that
shows them. -/
theorem ShowsFields.unique (h : ShowsFields r v) (h' : ShowsFields r' v) : r = r' := by
  obtain ⟨items, hitems, hshows⟩ := h.diagnostics
  obtain ⟨items', hitems', hshows'⟩ := h'.diagnostics
  obtain rfl : items = items' := Json.array.inj (Option.some.inj (hitems.symm.trans hitems'))
  have hleft : Relator.LeftUnique ShowsDiagnostic := fun _ _ _ => ShowsDiagnostic.unique
  have hdiagnostics : r.diagnostics = r'.diagnostics :=
    List.left_unique_forall₂' hleft hshows hshows'
  have hroot : r.root = r'.root := by
    obtain ⟨t, ht, hroot⟩ := h.root
    obtain ⟨t', ht', hroot'⟩ := h'.root
    rw [hroot, hroot', eq_of_member? ht ht']
  have hchecked : r.documentsChecked = r'.documentsChecked :=
    Json.number.inj (Option.some.inj (h.documentsChecked.symm.trans h'.documentsChecked))
  cases r
  cases r'
  simp only [Report.mk.injEq]
  exact ⟨kind_eq_of_name (eq_of_member? h.kind h'.kind), hroot,
    eq_of_member? h.timestamp h'.timestamp, hchecked, hdiagnostics⟩

/-- **The document of a report loses nothing.**  Where the paths are UTF-8 there is one; it
spells one value, which shows the report, and no other report is written as the same text. -/
theorem json_spells (h : r.HasUtf8Paths) :
    ∃ document v, json? r = some (document ++ ['\n']) ∧ Json.Spells document v ∧
      (∀ w, Json.Spells document w → w = v) ∧ Shows r v ∧ ∀ r', json? r' = json? r → r' = r := by
  obtain ⟨v, hv⟩ := exists_dataOf?_iff.2 h
  have hjson : json? r = some (v.pretty ++ ['\n']) := by rw [json?, hv, Option.map_some]
  refine ⟨v.pretty, v, hjson, Json.spells_print .pretty v,
    fun _ => (Json.spells_print_iff .pretty).1, shows_of_dataOf? hv, fun r' hr' => ?_⟩
  obtain ⟨v', hv', htext⟩ := Option.map_eq_some_iff.1 (hr'.trans hjson)
  obtain rfl : v' = v := Json.print_injective .pretty (List.append_cancel_right htext)
  exact (shows_of_dataOf? hv').unique (shows_of_dataOf? hv).toShowsFields

/-- **The record of a report loses nothing either,** though it says less of it. -/
theorem record_spells (h : r.HasUtf8Paths) :
    ∃ v, recordOf? r = some v ∧ (∀ w, Json.Spells v.compact w ↔ w = v) ∧ ShowsFields r v ∧
      ∀ r', recordOf? r' = some v → r' = r := by
  obtain ⟨v, hv⟩ := (exists_items_iff fun _ => exists_map_text?_iff).2 h
  exact ⟨v, hv, fun _ => Json.spells_print_iff .compact, showsFields_of_recordOf? hv,
    fun r' hr' => (showsFields_of_recordOf? hr').unique (showsFields_of_recordOf? hv)⟩

/-- A report with quotes, a backslash, control characters and a character of two units in
its texts. -/
def unprintableReport : Report where
  kind := .skill
  root := Utf8.encode ['a', '"', '\\', Char.ofNat 0x1F]
  timestamp := []
  documentsChecked := 10
  diagnostics :=
    [⟨.warning, "r", ['\n', '\r', '\t', Char.ofNat 0],
        Utf8.encode ['/', Char.ofNat 0x1D11E], some []⟩,
      ⟨.info, "r", [], [], none⟩]

/-- The paths of the example are UTF-8. -/
theorem hasUtf8Paths_unprintableReport : unprintableReport.HasUtf8Paths := by
  refine ⟨⟨_, rfl⟩, fun d hd => ?_⟩
  rcases List.mem_cons.1 hd with rfl | hd
  · exact ⟨_, rfl⟩
  · exact ⟨[], by rw [List.mem_singleton.1 hd]; rfl⟩

/-- Its document spells a value that has the two lines of the text format in it. -/
theorem json_spells_unprintableReport :
    unprintableReport.HasUtf8Paths ∧ unprintableReport.diagnostics ≠ [] ∧
      ∃ document v items lines, json? unprintableReport = some (document ++ ['\n']) ∧
        Json.Spells document v ∧ Shows unprintableReport v ∧
        v.member? "diagnostics" = some (.array items) ∧
        List.Forall₂ (fun line item => item.member? "line" = some (.string line)) lines items ∧
        Render.lines false unprintableReport = lines.flatMap (· ++ ['\n']) := by
  have hfound : unprintableReport.diagnostics ≠ [] := List.cons_ne_nil _ _
  obtain ⟨document, v, hjson, hspells, -, hshows, -⟩ :=
    json_spells hasUtf8Paths_unprintableReport
  obtain ⟨items, lines, hitems, hlines, htext⟩ := hshows.lines hfound
  exact ⟨hasUtf8Paths_unprintableReport, hfound, document, v, items, lines, hjson, hspells, hshows,
    hitems, hlines, htext⟩

end Render

end DocLint
