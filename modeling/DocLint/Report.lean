/-
# Reports

`ValidationReport` with `passed`, `exit_code` and `count_by_severity`, SPEC_FULL.md §3 and
§10.2.

What one run over a root has found.
-/

import DocLint.Diagnostic
import DocLint.Kind

namespace DocLint

/-- The findings of a run. -/
structure Report where
  kind : Kind
  root : Path
  timestamp : Text
  documentsChecked : Nat
  diagnostics : List Diagnostic
deriving Repr, DecidableEq

/-- How many diagnostics there are of each severity. -/
structure SeverityCounts where
  blockers : Nat
  warnings : Nat
  infos : Nat
deriving Repr, DecidableEq

namespace SeverityCounts

/-- The counts with one diagnostic more. -/
def add (n : SeverityCounts) : Severity → SeverityCounts
  | .blocker => { n with blockers := n.blockers + 1 }
  | .warning => { n with warnings := n.warnings + 1 }
  | .info => { n with infos := n.infos + 1 }

/-- The number of diagnostics counted. -/
def total (n : SeverityCounts) : Nat := n.blockers + n.warnings + n.infos

/-- Counting a severity adds one to the total, whichever it is. -/
theorem total_add (n : SeverityCounts) (s : Severity) : (n.add s).total = n.total + 1 := by
  cases s <;> simp only [add, total] <;> omega

end SeverityCounts

namespace Report

/-- The report of a run, its diagnostics ordered by severity. -/
def new (kind : Kind) (root : Path) (timestamp : Text) (documentsChecked : Nat)
    (diagnostics : List Diagnostic) : Report :=
  ⟨kind, root, timestamp, documentsChecked, Diagnostic.sortBySeverity diagnostics⟩

/-- Nothing was found. -/
def passed (r : Report) : Bool := r.diagnostics.isEmpty

/-- The exit code of a run with this report. -/
def exitCode (r : Report) : Nat := if r.passed then 0 else 1

/-- The diagnostics of each severity, counted in one pass. -/
def counts (r : Report) : SeverityCounts :=
  r.diagnostics.foldl (fun n d => n.add d.severity) ⟨0, 0, 0⟩

/-- **Every diagnostic is counted once,** under its severity, so the three counts add up to
their number. -/
theorem total_counts (r : Report) : r.counts.total = r.diagnostics.length := by
  have step (ds : List Diagnostic) (n : SeverityCounts) :
      (ds.foldl (fun n d => n.add d.severity) n).total = n.total + ds.length := by
    induction ds generalizing n with
    | nil => rfl
    | cons d ds ih => simp only [List.foldl_cons, ih, SeverityCounts.total_add, List.length_cons]; omega
  simpa [counts, SeverityCounts.total] using step r.diagnostics ⟨0, 0, 0⟩

end Report

end DocLint
