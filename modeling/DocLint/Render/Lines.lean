/-
# Reports as lines

The text format, SPEC_FULL.md §4.5 and §10.5.

One line for each diagnostic, in the order of the report; one line that says so
where there is none.  Only the tag of a diagnostic is coloured.
-/

import DocLint.Render.Color
import DocLint.Report

namespace DocLint

namespace Render

/-- The line of a report without diagnostics. -/
def okLine : Text := "OK: no problems found"

/-- The line of a diagnostic. -/
def diagnosticLine (color : Bool) (d : Diagnostic) : Text :=
  (Style.severity d.severity).paint color d.severity.tag ++ [' '] ++ d.detail

/-- A report as lines, each closed by a newline. -/
def lines (color : Bool) (r : Report) : Text :=
  if r.passed then Style.success.paint color okLine ++ ['\n']
  else r.diagnostics.flatMap fun d => diagnosticLine color d ++ ['\n']

/-- Without colours a line is the line of its diagnostic, as the JSON format shows it. -/
@[simp]
theorem diagnosticLine_false (d : Diagnostic) : diagnosticLine false d = d.line := rfl

/-- Where anything was found there is a line for each diagnostic and no other. -/
theorem lines_of_ne_nil (color : Bool) {r : Report} (h : r.diagnostics ≠ []) :
    lines color r = r.diagnostics.flatMap fun d => diagnosticLine color d ++ ['\n'] := by
  have hfailed : ¬ r.passed := by
    rw [Report.passed, List.isEmpty_iff]
    exact h
  rw [lines, if_neg hfailed]

end Render

end DocLint
