/-
# Reports as SARIF

The SARIF format, SPEC_FULL.md §10.5.

A SARIF 2.1.0 log with one run.  Its driver lists every rule of the kind, broken
or not, so that a result can point at its rule by index.  A rule id outside the
catalogue has no index.
-/

import DocLint.Catalogue
import DocLint.Json.Print
import DocLint.Report

namespace DocLint

namespace Render

namespace Sarif

/-- The program in a log. -/
def driverName : Text := "authoring-lint"

/-- The version of the program in a log. -/
def driverVersion : Text := "0.1.0"

/-- How serious a result is. -/
def level : Severity → Text
  | .blocker => "error"
  | .warning => "warning"
  | .info => "note"

/-- A text as a message. -/
def messageOf (t : Text) : Json := .object [("text", .string t)]

/-- A rule of the driver. -/
def rule (r : Rule) : Json :=
  .object
    [("help", messageOf r.remediation), ("id", .string r.id),
      ("shortDescription", messageOf r.message)]

/-- The place of a rule in the catalogue of a kind. -/
def ruleIndex? (kind : Kind) (ruleId : Text) : Option Nat :=
  (Catalogue.rulesFor kind).findIdx? (·.id == ruleId)

/-- The message of a result. -/
def resultText (d : Diagnostic) : Text :=
  match d.observed with
  | some observed => d.message ++ [' ', '('] ++ observed ++ [')']
  | none => d.message

/-- The path of a result as it is printed, slashes in place of backslashes. -/
def uri (path : Path) : Text := Text.replaceChar '\\' '/' path.display

/-- The place of a result. -/
def location (path : Path) : Json :=
  .object
    [("physicalLocation", .object [("artifactLocation", .object [("uri", .string (uri path))])])]

/-- The index of a rule as a member of a result, where it has one. -/
def indexMember : Option Nat → List (Text × Json)
  | some index => [("ruleIndex", .number index)]
  | none => []

/-- What every result says of its diagnostic. -/
def resultMembers (d : Diagnostic) : List (Text × Json) :=
  [("level", .string (level d.severity)), ("locations", .array [location d.path]),
    ("message", messageOf (resultText d)), ("ruleId", .string d.ruleId)]

/-- The result of a diagnostic. -/
def result (kind : Kind) (d : Diagnostic) : Json :=
  .object (resultMembers d ++ indexMember (ruleIndex? kind d.ruleId))

/-- The log of a report. -/
def log (r : Report) : Json :=
  .object
    [("runs", .array
      [.object
        [("results", .array (r.diagnostics.map (result r.kind))),
          ("tool", .object
            [("driver", .object
              [("name", .string driverName),
                ("rules", .array ((Catalogue.rulesFor r.kind).map rule)),
                ("version", .string driverVersion)])])]]),
      ("version", .string "2.1.0")]

end Sarif

/-- A report as a SARIF document closed by a newline. -/
def sarif (r : Report) : Text := (Sarif.log r).pretty ++ ['\n']

end Render

end DocLint
