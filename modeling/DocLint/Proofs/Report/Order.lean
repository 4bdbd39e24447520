/-
# The order of a report

The stable sort by severity, SPEC_FULL.md §4.5 and §8.

`sort_by_severity` puts the most serious first (`pairwise_sortBySeverity`) and is stable
(`filter_sortBySeverity`).  A list in order of severity is its blockers, then its warnings,
then its hints (`eq_flatMap_filter_of_pairwise`).  So a sorted list is known by its
severities (`sortBySeverity_eq_flatMap`), and whatever treats each diagnostic by itself may
be done before sorting or behind it:

| done to the diagnostics | law |
| --- | --- |
| some are left out | `sortBySeverity_filter` |
| each is moved to another path | `sortBySeverity_map_mapPath` |
-/

import DocLint.Diagnostic
import DocLint.Proofs.StableSort

namespace DocLint

namespace Diagnostic

/-- The diagnostic at another path. -/
def mapPath (f : Path → Path) (d : Diagnostic) : Diagnostic := { d with path := f d.path }

theorem mapPath_id : mapPath id = id := rfl

/-- Of two diagnostics one may stand before the other, since ranks are numbers. -/
theorem total_rank (a b : Diagnostic) :
    decide (a.severity.rank ≤ b.severity.rank) ∨ decide (b.severity.rank ≤ a.severity.rank) := by
  simpa using Nat.le_total a.severity.rank b.severity.rank

/-- What may stand before another may stand before what that may stand before. -/
theorem trans_rank (a b c : Diagnostic) (hab : decide (a.severity.rank ≤ b.severity.rank))
    (hbc : decide (b.severity.rank ≤ c.severity.rank)) :
    decide (a.severity.rank ≤ c.severity.rank) :=
  decide_eq_true (Nat.le_trans (of_decide_eq_true hab) (of_decide_eq_true hbc))

/-- **Sorting loses, adds and doubles nothing,** so a report counts what was found. -/
theorem perm_sortBySeverity (ds : List Diagnostic) : (sortBySeverity ds).Perm ds :=
  perm_stableSort _ ds

/-- **The most serious come first,** in the whole list and not only side by side. -/
theorem pairwise_sortBySeverity (ds : List Diagnostic) :
    (sortBySeverity ds).Pairwise fun a b => a.severity.rank ≤ b.severity.rank :=
  (pairwise_stableSort total_rank trans_rank ds).imp of_decide_eq_true

/-- **Within a severity the order stays.**  Diagnostics of one severity tie, and ties keep their
order. -/
theorem filter_sortBySeverity (s : Severity) (ds : List Diagnostic) :
    (sortBySeverity ds).filter (·.severity = s) = ds.filter (·.severity = s) :=
  filter_stableSort total_rank trans_rank (fun a b ha hb => by simp_all) ds

/-- **A list in order of severity is its severities, one behind the other.**  By induction:
behind a diagnostic stands nothing more serious, so it begins the part of its severity. -/
theorem eq_flatMap_filter_of_pairwise {ds : List Diagnostic}
    (h : ds.Pairwise fun a b => a.severity.rank ≤ b.severity.rank) :
    ds = Severity.all.flatMap fun s => ds.filter (·.severity = s) := by
  induction ds with
  | nil => rfl
  | cons d ds ih =>
    obtain ⟨hd, hds⟩ := List.pairwise_cons.1 h
    have hnone {s : Severity} (hs : s.rank < d.severity.rank) :
        ds.filter (·.severity = s) = [] := by
      refine List.filter_eq_nil_iff.2 fun e he hes => ?_
      have hle : d.severity.rank ≤ e.severity.rank := hd e he
      rw [of_decide_eq_true hes] at hle
      omega
    have ih := ih hds
    simp only [Severity.all, List.flatMap_cons, List.flatMap_nil, List.append_nil] at ih ⊢
    -- What is more serious than the first is not in the list at all.
    cases hsev : d.severity with
    | blocker => simpa [List.filter_cons, hsev] using ih
    | warning =>
      have hblockers := hnone (s := .blocker) (by rw [hsev]; decide)
      rw [hblockers] at ih
      simpa [List.filter_cons, hsev, hblockers] using ih
    | info =>
      have hblockers := hnone (s := .blocker) (by rw [hsev]; decide)
      have hwarnings := hnone (s := .warning) (by rw [hsev]; decide)
      rw [hblockers, hwarnings] at ih
      simpa [List.filter_cons, hsev, hblockers, hwarnings] using ih

/-- **Sorting puts the severities one behind the other.**  All other facts about the order of a
report are read off this. -/
theorem sortBySeverity_eq_flatMap (ds : List Diagnostic) :
    sortBySeverity ds = Severity.all.flatMap fun s => ds.filter (·.severity = s) := by
  conv => lhs; rw [eq_flatMap_filter_of_pairwise (pairwise_sortBySeverity ds)]
  simp only [filter_sortBySeverity]

theorem mem_sortBySeverity {ds : List Diagnostic} {d : Diagnostic} :
    d ∈ sortBySeverity ds ↔ d ∈ ds :=
  (perm_sortBySeverity ds).mem_iff

/-- **Leaving out and sorting change places.**  So a part of a report can be compared with a
report on that part. -/
theorem sortBySeverity_filter (p : Diagnostic → Bool) (ds : List Diagnostic) :
    sortBySeverity (ds.filter p) = (sortBySeverity ds).filter p := by
  rw [sortBySeverity_eq_flatMap, sortBySeverity_eq_flatMap, List.filter_flatMap]
  simp only [List.filter_filter, Bool.and_comm]

/-- **Moving to other paths and sorting change places,** since paths have no say in the order.
-/
theorem sortBySeverity_map_mapPath (f : Path → Path) (ds : List Diagnostic) :
    sortBySeverity (ds.map (mapPath f)) = (sortBySeverity ds).map (mapPath f) := by
  rw [sortBySeverity_eq_flatMap, sortBySeverity_eq_flatMap, List.map_flatMap]
  simp only [List.filter_map]
  rfl

end Diagnostic

end DocLint
