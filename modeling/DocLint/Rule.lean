/-
# Rules

`RuleInfo`, SPEC_FULL.md §10.3.

What a rule is called, how serious it is when broken, and how it is mended: an
entry of the list that a command prints, and of the rules in a SARIF log.  The
checks do not look rules up.  They write the id and the severity into what they
report.
-/

import DocLint.Diagnostic
import DocLint.Kind

namespace DocLint

/-- A rule of the catalogue. -/
structure Rule where
  id : Text
  severity : Severity
  kind : Kind
  /-- What is wrong where the rule is broken. -/
  message : Text
  /-- What to do about it. -/
  remediation : Text
deriving Repr, DecidableEq

end DocLint
