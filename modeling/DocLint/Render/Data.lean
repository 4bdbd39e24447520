/-
# Reports as JSON

The JSON format and the record of a report, SPEC_FULL.md §10.5 and §10.2.

| layout | members |
| --- | --- |
| `dataOf?` | kind, root, time, documents checked, verdict, counts, diagnostics with their lines |
| `recordOf?` | the fields of the report and no more |

A JSON string holds characters, and a path need not spell any.  A path that does
not has no place in a document, so there is none for the report (`json?`); whoever
asked for it is left without one.  The other formats print such a path all the
same.
-/

import DocLint.Json.Print
import DocLint.Report

namespace DocLint

namespace Render

/-- The fields of a diagnostic at the path that reads `path`. -/
def diagnosticMembers (d : Diagnostic) (path : Text) : List (Text × Json) :=
  [("severity", .string d.severity.tag), ("rule_id", .string d.ruleId),
    ("message", .string d.message), ("path", .string path), ("observed", .ofText? d.observed)]

/-- A diagnostic with the line that the text format prints. -/
def diagnosticData? (d : Diagnostic) : Option Json :=
  d.path.text?.map fun path =>
    .object (diagnosticMembers d path ++ [(("line" : Text), Json.string d.line)])

/-- A diagnostic by its fields alone, as it stands in the record of a report. -/
def diagnosticRecord? (d : Diagnostic) : Option Json :=
  d.path.text?.map fun path => .object (diagnosticMembers d path)

/-- How many diagnostics there are of each severity. -/
def countsData (n : SeverityCounts) : Json :=
  .object [("p0", .number n.blockers), ("p1", .number n.warnings), ("p2", .number n.infos)]

/-- A report with its verdict and counts. -/
def dataOf? (r : Report) : Option Json := do
  let root ← r.root.text?
  let diagnostics ← r.diagnostics.mapM diagnosticData?
  some
    (.object
      [("kind", .string r.kind.name), ("root", .string root), ("timestamp", .string r.timestamp),
        ("documents_checked", .number r.documentsChecked), ("passed", .bool r.passed),
        ("summary", countsData r.counts), ("diagnostics", .array diagnostics)])

/-- A report by its fields alone, in the order in which they are declared: what a report is as a
value within another document, for a caller who writes one. -/
def recordOf? (r : Report) : Option Json := do
  let root ← r.root.text?
  let diagnostics ← r.diagnostics.mapM diagnosticRecord?
  some
    (.object
      [("kind", .string r.kind.name), ("root", .string root), ("timestamp", .string r.timestamp),
        ("documents_checked", .number r.documentsChecked), ("diagnostics", .array diagnostics)])

/-- A report as a JSON document closed by a newline; none where a path of the
report is not UTF-8. -/
def json? (r : Report) : Option Text := (dataOf? r).map fun v => v.pretty ++ ['\n']

end Render

end DocLint
