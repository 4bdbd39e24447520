/-
# The prompts that are accepted

The rules for prompts, SPEC_FULL.md §4.2.

The grammar of a prompt that breaks no rule, in terms of its text alone, and the
proof that the checks accept exactly these texts.

| check | silent when | where |
| --- | --- | --- |
| frontmatter | the text is framed | `Accepted.framed` |
| name | the last `name` line has a name behind its colon | `Accepted.name` |
| description | the last `description` line has something behind its colon | `Accepted.description` |
| variables | two segments bear a variable | `Accepted.two_variables` |
| output | one of the two words stands in the text | `Accepted.output` |

Each check looks at one part of the document, so it is described by itself
(`checkName_eq_none_iff` and its fellows), and the grammar is their conjunction.
-/

import DocLint.Prompt.Check
import DocLint.Proofs.Frontmatter.Fields
import DocLint.Proofs.Prompt.Segments

namespace DocLint

namespace Prompt

open Frontmatter Text

/-- `t` is a prompt that lacks nothing, and `block` its block. -/
structure Accepted (t block : Text) : Prop where
  /-- The block opens the text and ends at the first closing. -/
  framed : Framed t block
  /-- The last line with the key `name` has a name behind its colon, bare or
  quoted. -/
  name : ∃ raw, LastField block "name" raw ∧ NamePattern (stripQuotes (trim raw))
  /-- The last line with the key `description` has more than blanks or a pair of
  quotes behind its colon. -/
  description : ∃ raw, LastField block "description" raw ∧ stripQuotes (trim raw) ≠ []
  /-- Two segments of the whole text bear a variable. -/
  two_variables : 2 ≤ (segments t).countP (BearsVariable ·)
  /-- The whole text speaks of its output. -/
  output : "Output" <:+: t ∨ "出力" <:+: t

variable {d : Document}

/-- No fault is found in a name that is there and follows the pattern. -/
theorem checkName_eq_none_iff :
    checkName d = none ↔ ∃ name, d.fields.get? "name" = some name ∧ NamePattern name :=
  requiredName_eq_none_iff

/-- No fault is found in a description that is there and is not empty. -/
theorem checkDescription_eq_none_iff :
    checkDescription d = none ↔
      ∃ description, d.fields.get? "description" = some description ∧ description ≠ [] :=
  present_eq_none_iff

/-- Two variables are enough, counted as segments that bear one. -/
theorem checkInputVariables_eq_none_iff :
    checkInputVariables d = none ↔ 2 ≤ (segments d.text).countP (BearsVariable ·) := by
  rw [← variableCount_eq_countP]
  unfold checkInputVariables
  split
  · next h => simp [h]
  · next h => simp [h]
  · next h₀ h₁ =>
    simp only [true_iff]
    have h₀' : variableCount d.text ≠ 0 := h₀
    have h₁' : variableCount d.text ≠ 1 := h₁
    omega

/-- One of the two words stands in the text, be it in the frontmatter or behind it. -/
theorem any_outputMarkers_iff {t : Text} :
    outputMarkers.any (contains · t) ↔ "Output" <:+: t ∨ "出力" <:+: t := by
  rw [List.any_eq_true]
  simp only [contains_iff_isInfix, outputMarkers, List.mem_cons, List.not_mem_nil, or_false,
    exists_eq_or_imp, exists_eq_left]
  rfl

/-- Either marker is enough, wherever it stands in the text. -/
theorem checkOutputSection_eq_none_iff :
    checkOutputSection d = none ↔ "Output" <:+: d.text ∨ "出力" <:+: d.text := by
  rw [← any_outputMarkers_iff]
  unfold checkOutputSection
  split <;> simp_all

/-- A document breaks no rule where no check speaks, so the checks can be looked at one by one.
-/
theorem checks_filterMap_eq_nil_iff :
    (checks.filterMap fun check => check d) = [] ↔
      checkName d = none ∧ checkDescription d = none ∧ checkInputVariables d = none ∧
        checkOutputSection d = none := by
  simp [checks, List.filterMap_eq_nil_iff]

/-- **A prompt is accepted exactly where the grammar derives it,** whatever its path.  The
grammar speaks of the text alone: its block between opening and first closing, the last fields
with the two keys, two segments that bear a variable, and a marker. -/
theorem check_eq_nil_iff_accepted (path : Path) (t : Text) :
    check path t = [] ↔ ∃ block, Accepted t block := by
  unfold check
  constructor
  · intro h
    split at h
    · exact absurd h (List.cons_ne_nil _ _)
    · next fields hfields =>
      obtain ⟨block, hframed, rfl⟩ := extract_eq_some_iff.1 hfields
      obtain ⟨hname, hdescription, hvariables, houtput⟩ := checks_filterMap_eq_nil_iff.1 h
      obtain ⟨name, hname, hpattern⟩ := checkName_eq_none_iff.1 hname
      obtain ⟨value, hvalue, hne⟩ := checkDescription_eq_none_iff.1 hdescription
      obtain ⟨rawName, hlastName, rfl⟩ := get?_ofBlock_eq_some_iff.1 hname
      obtain ⟨rawValue, hlastValue, rfl⟩ := get?_ofBlock_eq_some_iff.1 hvalue
      exact ⟨block, hframed, ⟨rawName, hlastName, hpattern⟩, ⟨rawValue, hlastValue, hne⟩,
        checkInputVariables_eq_none_iff.1 hvariables, checkOutputSection_eq_none_iff.1 houtput⟩
  · rintro ⟨block, hframed, ⟨rawName, hlastName, hpattern⟩, ⟨rawValue, hlastValue, hne⟩, hvariables,
      houtput⟩
    have hname : (ofBlock .strip block).get? "name" = some (stripQuotes (trim rawName)) :=
      get?_ofBlock_eq_some_iff.2 ⟨rawName, hlastName, rfl⟩
    have hvalue : (ofBlock .strip block).get? "description" = some (stripQuotes (trim rawValue)) :=
      get?_ofBlock_eq_some_iff.2 ⟨rawValue, hlastValue, rfl⟩
    rw [extract_eq_some_iff.2 ⟨block, hframed, rfl⟩]
    exact checks_filterMap_eq_nil_iff.2
      ⟨checkName_eq_none_iff.2 ⟨_, hname, hpattern⟩,
        checkDescription_eq_none_iff.2 ⟨_, hvalue, hne⟩,
        checkInputVariables_eq_none_iff.2 hvariables, checkOutputSection_eq_none_iff.2 houtput⟩

/-- A name may be quoted, and two variables may stand on one line. -/
example :
    check "p.prompt.md"
      "---\nname: 'review-code'\ndescription: Reviews.\n---\n$\x7binput:a\x7d $\x7binput:b\x7d Output" =
      [] := by
  cbv

end Prompt

end DocLint
