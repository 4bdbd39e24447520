/-
# The canonical form of a report

The order of a report, SPEC_FULL.md §4.5 and §8, and `count_by_severity`.

The diagnostics of a report stand in the one order that a list in order of severity can have
which keeps the order within each severity (`Report.Presents`).  So what a list of
diagnostics becomes in a report is known from three lists, its blockers, its warnings and its
hints, and from nothing else about it (`new_presents`).

The counts of a report are taken by a walk of their own, which knows nothing of the order.
Since nothing is lost or doubled by sorting, they say where each severity begins and ends:

| places of the diagnostics | severity |
| --- | --- |
| the first `counts.blockers` | `blocker` |
| the next `counts.warnings` | `warning` |
| the last `counts.infos` | `info` |
-/

import DocLint.Proofs.Report.Order
import DocLint.Report

namespace DocLint

namespace Diagnostic

/-- Lists that agree on each severity are sorted to the same, since a sorted list is its
severities. -/
theorem sortBySeverity_congr {ds ds' : List Diagnostic}
    (h : ∀ s : Severity, ds.filter (·.severity = s) = ds'.filter (·.severity = s)) :
    sortBySeverity ds = sortBySeverity ds' := by
  rw [sortBySeverity_eq_flatMap, sortBySeverity_eq_flatMap]
  simp only [h]

/-- **Sorting twice is sorting once:** a sorted list agrees with what it was sorted from on each
severity. -/
theorem sortBySeverity_sortBySeverity (ds : List Diagnostic) :
    sortBySeverity (sortBySeverity ds) = sortBySeverity ds :=
  sortBySeverity_congr fun s => filter_sortBySeverity s ds

/-- **Lists are sorted to the same exactly where they agree on each severity.**  So nothing else
about a list gets into a report. -/
theorem sortBySeverity_eq_iff {ds ds' : List Diagnostic} :
    sortBySeverity ds = sortBySeverity ds' ↔
      ∀ s : Severity, ds.filter (·.severity = s) = ds'.filter (·.severity = s) := by
  refine ⟨fun h s => ?_, sortBySeverity_congr⟩
  rw [← filter_sortBySeverity, h, filter_sortBySeverity]

/-- The diagnostics of one severity have that severity, each of them. -/
theorem map_severity_filter (s : Severity) (ds : List Diagnostic) :
    (ds.filter (·.severity = s)).map (·.severity) =
      List.replicate (ds.countP (·.severity = s)) s := by
  rw [List.eq_replicate_iff, List.length_map, List.countP_eq_length_filter]
  refine ⟨rfl, fun t ht => ?_⟩
  obtain ⟨d, hd, rfl⟩ := List.mem_map.1 ht
  exact of_decide_eq_true (List.mem_filter.1 hd).2

end Diagnostic

namespace Report

open Diagnostic

/-- `r` shows the diagnostics `ds`, severity by severity. -/
structure Presents (r : Report) (ds : List Diagnostic) : Prop where
  /-- Within a severity the order is that of `ds`. -/
  by_severity : r.diagnostics =
    ds.filter (·.severity = .blocker) ++ ds.filter (·.severity = .warning) ++
      ds.filter (·.severity = .info)
  /-- Nothing is lost, added or doubled. -/
  perm : r.diagnostics.Perm ds
  /-- Equal diagnostics stay as many as they were. -/
  count_eq : ∀ d, r.diagnostics.count d = ds.count d
  /-- The counts tell the places of each severity. -/
  severities : r.diagnostics.map (·.severity) =
    List.replicate r.counts.blockers .blocker ++ List.replicate r.counts.warnings .warning ++
      List.replicate r.counts.infos .info
  total : r.counts.blockers + r.counts.warnings + r.counts.infos = ds.length

/-- Each diagnostic is counted under its severity.  The counts are taken by a walk from the
left, so the proof is by induction with any counts in front. -/
theorem counts_eq (r : Report) :
    r.counts = ⟨r.diagnostics.countP (·.severity = .blocker),
      r.diagnostics.countP (·.severity = .warning), r.diagnostics.countP (·.severity = .info)⟩ := by
  have hfold (ds : List Diagnostic) (n : SeverityCounts) :
      ds.foldl (fun n d => n.add d.severity) n =
        ⟨n.blockers + ds.countP (·.severity = .blocker),
          n.warnings + ds.countP (·.severity = .warning),
          n.infos + ds.countP (·.severity = .info)⟩ := by
    induction ds generalizing n with
    | nil => rfl
    | cons d ds ih =>
      rw [List.foldl_cons, ih]
      cases hd : d.severity <;> simp [SeverityCounts.add, hd] <;> omega
  rw [Report.counts, hfold]
  simp only [Nat.zero_add]

variable (kind : Kind) (root : Path) (timestamp : Text) (documentsChecked : Nat)

theorem perm_new (ds : List Diagnostic) :
    (new kind root timestamp documentsChecked ds).diagnostics.Perm ds := perm_sortBySeverity ds

/-- The counts of a report are those of the diagnostics that it was made from, in whatever order
these were. -/
theorem counts_new (ds : List Diagnostic) :
    (new kind root timestamp documentsChecked ds).counts =
      ⟨ds.countP (·.severity = .blocker), ds.countP (·.severity = .warning),
        ds.countP (·.severity = .info)⟩ := by
  have hperm := perm_new kind root timestamp documentsChecked ds
  rw [counts_eq, hperm.countP_eq, hperm.countP_eq, hperm.countP_eq]

/-- **A report is its blockers, then its warnings, then its hints,** each part in the order it
was found. -/
theorem diagnostics_new (ds : List Diagnostic) :
    (new kind root timestamp documentsChecked ds).diagnostics =
      ds.filter (·.severity = .blocker) ++ ds.filter (·.severity = .warning) ++
        ds.filter (·.severity = .info) := by
  rw [new, sortBySeverity_eq_flatMap, Severity.all, List.flatMap_cons, List.flatMap_cons,
    List.flatMap_singleton, List.append_assoc]

/-- **A report is the canonical form of its diagnostics.**  It shows them severity by
severity; sorting it again changes nothing; and other diagnostics make the same report
exactly where they agree with these on each severity. -/
theorem new_presents (ds : List Diagnostic) :
    Presents (new kind root timestamp documentsChecked ds) ds ∧
    sortBySeverity (new kind root timestamp documentsChecked ds).diagnostics =
      (new kind root timestamp documentsChecked ds).diagnostics ∧
    ∀ ds' : List Diagnostic,
      (new kind root timestamp documentsChecked ds').diagnostics =
          (new kind root timestamp documentsChecked ds).diagnostics ↔
        ∀ s : Severity, ds'.filter (·.severity = s) = ds.filter (·.severity = s) := by
  have hperm := perm_new kind root timestamp documentsChecked ds
  refine ⟨?_, sortBySeverity_sortBySeverity ds, fun ds' => sortBySeverity_eq_iff⟩
  constructor
  case by_severity => exact diagnostics_new kind root timestamp documentsChecked ds
  case perm => exact hperm
  case count_eq => exact fun d => hperm.count_eq d
  case severities =>
    rw [diagnostics_new, counts_new, List.map_append, List.map_append, map_severity_filter,
      map_severity_filter, map_severity_filter]
  case total => exact (total_counts _).trans hperm.length_eq

end Report

end DocLint
