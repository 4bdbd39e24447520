/-
# Rules that are cited

The checks write an id and a severity of their own into each diagnostic, and the catalogue
lists its rules apart from them.  A diagnostic *cites* a rule where the two agree.

| diagnostic | cites |
| --- | --- |
| `r.violation message path` | `r`, at `path` |
| `r.violationWith message path observed` | `r`, at `path` |

Both stand on the side of the catalogue: they say what a diagnostic of `r` has to look like.
That the checks report nothing else is proved check by check, in `Prompt.eq_of_checkName`
and its neighbours.  An id names one entry of a catalogue (`Catalogue.filter_id_eq_singleton`),
so which rule is cited can be read off the id.
-/

import DocLint.Catalogue

namespace DocLint

/-- `d` has the id and the severity of `rule`, and reports it at `path`. -/
structure Diagnostic.Cites (d : Diagnostic) (rule : Rule) (path : Path) : Prop where
  ruleId_eq : d.ruleId = rule.id
  severity_eq : d.severity = rule.severity
  path_eq : d.path = path

namespace Rule

/-- The diagnostic by which the catalogue's `r` is reported, where nothing was measured. -/
def violation (r : Rule) (message : Text) (path : Path) : Diagnostic :=
  ⟨r.severity, r.id, message, path, none⟩

/-- The diagnostic by which the catalogue's `r` is reported, with the value that broke it. -/
def violationWith (r : Rule) (message : Text) (path : Path) (observed : Text) : Diagnostic :=
  ⟨r.severity, r.id, message, path, some observed⟩

/-- What `r` is reported by cites `r`, whatever the message says. -/
theorem cites_violation (r : Rule) (message : Text) (path : Path) :
    (r.violation message path).Cites r path := ⟨rfl, rfl, rfl⟩

/-- What `r` is reported by cites `r`, whatever was measured. -/
theorem cites_violationWith (r : Rule) (message : Text) (path : Path) (observed : Text) :
    (r.violationWith message path observed).Cites r path := ⟨rfl, rfl, rfl⟩

end Rule

namespace Catalogue

/-- No two rules of one kind share an id, since no two rules of any kind do. -/
theorem nodup_ids_rulesFor (kind : Kind) : ((rulesFor kind).map (·.id)).Nodup := by
  have h := nodup_ids
  rw [all, List.map_append, List.nodup_append] at h
  cases kind with
  | prompt => exact h.1
  | skill => exact h.2.1

/-- **An id names exactly one entry of a catalogue:** whoever looks the id of a rule up finds
that rule and no second one. -/
theorem filter_id_eq_singleton {rules : List Rule} (h : (rules.map (·.id)).Nodup) {rule : Rule}
    (hrule : rule ∈ rules) : rules.filter (·.id = rule.id) = [rule] := by
  induction rules with
  | nil => exact absurd hrule List.not_mem_nil
  | cons first rules ih =>
    rw [List.map_cons, List.nodup_cons] at h
    rcases List.mem_cons.1 hrule with rfl | hrule
    · have hnone : rules.filter (·.id = rule.id) = [] :=
        List.filter_eq_nil_iff.2 fun other hother hid =>
          h.1 (of_decide_eq_true hid ▸ List.mem_map_of_mem hother)
      rw [List.filter_cons_of_pos (by simp), hnone]
    · have hne : first.id ≠ rule.id := fun e => h.1 (e ▸ List.mem_map_of_mem hrule)
      rw [List.filter_cons_of_neg (by simpa using hne), ih h.2 hrule]

end Catalogue

end DocLint
