/-
# The catalogue of rules

`rules_for` and `all_rules`, SPEC_FULL.md §10.3.

The rules of each kind in the order in which they are listed.  No two rules
have one id (`nodup_ids`).
-/

import DocLint.Prompt.Rules
import DocLint.Skill.Rules

namespace DocLint

namespace Catalogue

/-- The rules for a kind. -/
def rulesFor : Kind → List Rule
  | .prompt => Prompt.catalogue
  | .skill => Skill.catalogue

/-- All rules, those for prompts first. -/
def all : List Rule := rulesFor .prompt ++ rulesFor .skill

/-- **An id names one rule,** over both kinds.  So a diagnostic's id tells which rule was
broken. -/
theorem nodup_ids : (all.map (·.id)).Nodup := by
  decide +kernel

end Catalogue

end DocLint
