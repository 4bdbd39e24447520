/-
# Diagnostics

`Severity`, `Diagnostic` and `sort_by_severity`, SPEC_FULL.md §3, §4.5 and §10.2;
`unreadable`, §10.3.

One broken rule in one document, and how serious it is.

| severity | tag | rank | meaning |
| --- | --- | ---: | --- |
| `blocker` | `P0` | 0 | the document cannot be used |
| `warning` | `P1` | 1 | worth mending |
| `info` | `P2` | 2 | a hint |

A diagnostic reads `<tag> <message>: <path>`, with ` (<observed>)` behind it
where a value was measured.

Whoever reports a broken rule writes down its id and its severity (`new`).  That
these are an id and a severity of the catalogue is nothing that a diagnostic
could say of itself.
-/

import DocLint.FileSystem
import DocLint.StableSort

namespace DocLint

/-- How serious a diagnostic is. -/
inductive Severity
  | blocker
  | warning
  | info
deriving Repr, DecidableEq

namespace Severity

/-- The tag in front of a diagnostic. -/
def tag : Severity → Text
  | .blocker => "P0"
  | .warning => "P1"
  | .info => "P2"

/-- The place in a report; lower ranks come first. -/
def rank : Severity → Nat
  | .blocker => 0
  | .warning => 1
  | .info => 2

/-- The severities, most serious first. -/
def all : List Severity := [.blocker, .warning, .info]

/-- The severity with the given tag. -/
def ofTag? (t : Text) : Option Severity := all.find? (·.tag == t)

/-- **A tag reads back** as the severity that it was written for. -/
theorem ofTag?_tag (s : Severity) : ofTag? s.tag = some s := by
  cases s <;> rfl

end Severity

/-- One broken rule in one document. -/
structure Diagnostic where
  severity : Severity
  ruleId : Text
  message : Text
  path : Path
  /-- The value that broke the rule, where one was measured. -/
  observed : Option Text
deriving Repr, DecidableEq

namespace Diagnostic

/-- A diagnostic of the rule that is called `ruleId`, where nothing was measured. -/
def new (severity : Severity) (ruleId message : Text) (path : Path) : Diagnostic :=
  ⟨severity, ruleId, message, path, none⟩

/-- The diagnostic with the value that was measured. -/
def withObserved (d : Diagnostic) (observed : Text) : Diagnostic :=
  { d with observed := some observed }

/-- The diagnostic of a document that is there and cannot be read. -/
def unreadable (ruleId : Text) (path : Path) (error : FileError) : Diagnostic :=
  (new .blocker ruleId "unreadable file" path).withObserved error.message

/-- What stands behind the tag of a diagnostic. -/
def detail (d : Diagnostic) : Text :=
  d.message ++ [':', ' '] ++ d.path.display ++
    match d.observed with
    | some observed => [' ', '('] ++ observed ++ [')']
    | none => []

/-- The line of a diagnostic, without a newline. -/
def line (d : Diagnostic) : Text := d.severity.tag ++ [' '] ++ d.detail

/-- The diagnostics by severity, most serious first; those of one severity stay
in the order they were in. -/
def sortBySeverity (ds : List Diagnostic) : List Diagnostic :=
  stableSort (fun a b => a.severity.rank ≤ b.severity.rank) ds

end Diagnostic

end DocLint
