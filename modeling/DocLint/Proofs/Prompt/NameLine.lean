/-
# Mending a name

A prompt whose name is missing or not valid is mended by one more line: `name: ` and a
valid name, put in front of the closing of its block.  The findings about the name are
gone, and every other finding stays as it was, in its place (`check_withNameLine`).

| check | what the line does to it |
| --- | --- |
| `checkName` | the name on the last line holds, however often a name was set before |
| `checkDescription` | reads another key |
| `checkInputVariables` | a marker and its brace may stand on both sides of the line, but no part of a marker is in it |
| `checkOutputSection` | a word lies on one side of a newline, and a valid name has no upper-case letter |
-/

import DocLint.Proofs.Frontmatter.Insertion
import DocLint.Proofs.Frontmatter.RoundTrip
import DocLint.Proofs.Prompt.Acceptance
import DocLint.Proofs.Prompt.Findings

namespace DocLint

namespace Prompt

open Frontmatter Text

/-- The line that sets a name. -/
def nameLine (n : Text) : Text := "name: " ++ n

variable {n : Text}

/-! ### The line -/

/-- A name that follows the pattern has no other characters. -/
theorem isNameChar_of_mem (hn : NamePattern n) {c : Char} (hc : c ∈ n) : isNameChar c :=
  (isValidName_iff.1 (isValidName_iff_namePattern.2 hn)).2.2 c hc

/-- A character of the line is one of the key, or may stand in a name; so braces, newlines and
capitals are none. -/
theorem not_mem_nameLine (hn : NamePattern n) {c : Char} (hkey : c ∉ ("name: " : Text))
    (hc : isNameChar c = false) : c ∉ nameLine n := by
  intro hmem
  rcases List.mem_append.1 hmem with hmem | hmem
  · exact hkey hmem
  · exact absurd (isNameChar_of_mem hn hmem) (by simp [hc])

/-- The characters of names lie between the hyphen and the last letter, and no blank
does. -/
theorem isBlank_of_isNameChar {c : Char} (h : isNameChar c) : isBlank c = false := by
  have hrange : 0x2D ≤ c.toNat ∧ c.toNat ≤ 0x7A := by
    simp only [isNameChar, Bool.or_eq_true, Bool.and_eq_true, decide_eq_true_eq, beq_iff_eq] at h
    rcases h with (⟨hlow, hhigh⟩ | ⟨hlow, hhigh⟩) | rfl
    · exact ⟨Nat.le_trans (by decide) hlow, hhigh⟩
    · exact ⟨Nat.le_trans (by decide) hlow, Nat.le_trans hhigh (by decide)⟩
    · decide
  simp only [isBlank, Bool.or_eq_false_iff, Bool.and_eq_false_iff, decide_eq_false_iff_not,
    beq_eq_false_iff_ne]
  omega

theorem trim_name (hn : NamePattern n) : trim n = n := by
  have hbare {c : Char} (hc : c ∈ n) : isBlank c = false :=
    isBlank_of_isNameChar (isNameChar_of_mem hn hc)
  exact strip_eq_self_iff.2
    ⟨fun c hc => hbare (List.mem_of_mem_head? hc), fun c hc => hbare (List.mem_of_mem_getLast? hc)⟩

/-- A name has no quotes around it, so it is read as it stands in either mode. -/
theorem stripQuotes_name (hn : NamePattern n) : stripQuotes n = n := by
  refine StandsFor.eq_stripQuotes (.bare fun q hq inner heq => ?_)
  have hmem : q ∈ n := heq ▸ List.mem_cons_self
  rcases hq with rfl | rfl <;> exact absurd (isNameChar_of_mem hn hmem) (by decide)

/-- **The line is read as the name,** with one blank trimmed from its front. -/
theorem field?_nameLine (hn : NamePattern n) :
    field? .strip (nameLine n) = some (("name" : Text), n) := by
  have hcolon : ':' ∉ ("name" : Text) := by decide +kernel
  have hfield : field? .strip (nameLine n) = some (("name" : Text), stripQuotes (trim n)) :=
    field?_fieldText hcolon (by decide +kernel) n
  rw [hfield, trim_name hn, stripQuotes_name hn]

/-! ### The text around it -/

section Around

variable {t : Text} {i : Nat}

/-- A closing begins with the newline that ends the line, so the line stands between two
newlines. -/
theorem exists_withNameLine_eq (hopens : opening <+: t) (h : FirstClosing t i) (n : Text) :
    ∃ a b, t = a ++ '\n' :: b ∧
      withLineAt i (nameLine n) t = a ++ '\n' :: nameLine n ++ '\n' :: b := by
  obtain ⟨block, rest, -, hdrop, -⟩ := h.exists_parts hopens
  refine ⟨t.take i, opening ++ rest, ?_, ?_⟩
  · calc t = t.take i ++ t.drop i := (List.take_append_drop i t).symm
      _ = t.take i ++ '\n' :: (opening ++ rest) := by rw [hdrop]; rfl
  · rw [withLineAt, hdrop]
    rfl

/-- A name line brings in no variable and breaks none, since it has no brace and does not stand
inside a marker. -/
theorem variableCount_withNameLine (hopens : opening <+: t) (h : FirstClosing t i)
    (hn : NamePattern n) :
    variableCount (withLineAt i (nameLine n) t) = variableCount t := by
  obtain ⟨a, b, ht, hwith⟩ := exists_withNameLine_eq hopens h n
  have hdollar : '$' ∉ nameLine n := not_mem_nameLine hn (by decide +kernel) (by decide)
  have hbrace : '}' ∉ nameLine n := not_mem_nameLine hn (by decide +kernel) (by decide)
  rw [hwith, variableCount_insert_line hdollar hbrace, ← ht]

/-- A name line brings in no output marker and breaks none: it begins and ends with a newline
and is all in lower case. -/
theorem any_outputMarkers_withNameLine (hopens : opening <+: t) (h : FirstClosing t i)
    (hn : NamePattern n) :
    outputMarkers.any (contains · (withLineAt i (nameLine n) t)) =
      outputMarkers.any (contains · t) := by
  obtain ⟨a, b, ht, hwith⟩ := exists_withNameLine_eq hopens h n
  have hfree : ∀ marker ∈ outputMarkers, '\n' ∉ marker ∧ ¬ marker <:+: nameLine n := by
    have hcapital : 'O' ∉ nameLine n := not_mem_nameLine hn (by decide +kernel) (by decide)
    have hhan : '出' ∉ nameLine n := not_mem_nameLine hn (by decide +kernel) (by decide)
    intro marker hmarker
    rcases List.mem_cons.1 hmarker with rfl | hmarker
    · exact ⟨by decide, fun hp => hcapital (hp.subset List.mem_cons_self)⟩
    · obtain rfl := List.mem_singleton.1 hmarker
      exact ⟨by decide, fun hp => hhan (hp.subset List.mem_cons_self)⟩
  rw [Bool.eq_iff_iff, List.any_eq_true, List.any_eq_true]
  refine exists_congr fun marker => and_congr_right fun hmarker => ?_
  obtain ⟨hnewline, hline⟩ := hfree marker hmarker
  calc contains marker (withLineAt i (nameLine n) t)
      ↔ marker <:+: a ∨ marker <:+: nameLine n ∨ marker <:+: b := by
        rw [contains_iff_isInfix, hwith, List.append_assoc, List.cons_append,
          isInfix_append_cons_iff hnewline, isInfix_append_cons_iff hnewline]
    _ ↔ marker <:+: a ∨ marker <:+: b := by rw [or_iff_right hline]
    _ ↔ contains marker t := by
        rw [contains_iff_isInfix, ht, isInfix_append_cons_iff hnewline]

end Around

/-! ### What is found -/

/-- The finding is about the name. -/
def IsNameFinding (x : Diagnostic) : Prop :=
  x.ruleId = missingName.id ∨ x.ruleId = invalidName.id

instance : DecidablePred IsNameFinding := fun _ => inferInstanceAs (Decidable (_ ∨ _))

/-- The rules that the other checks report. -/
def otherRules : List Rule :=
  [missingDescription, noInputVariables, singleInputVariable, noOutputSection]

/-- What is reported under the other rules is nothing about the name. -/
theorem not_isNameFinding_of_mem_otherRules {r : Rule} (h : r ∈ otherRules) (message : Text)
    (path : Path) : ¬ IsNameFinding (r.violation message path) := by
  have hids : ∀ r ∈ otherRules, ¬ (r.id = missingName.id ∨ r.id = invalidName.id) := by
    decide +kernel
  exact hids r h

/-- Only the check of the name speaks of the name; without it the other three remain in their
order. -/
theorem filter_checks (d : Document) :
    (checks.filterMap fun check => check d).filter (¬ IsNameFinding ·) =
      (checkDescription d).toList ++
        ((checkInputVariables d).toList ++ (checkOutputSection d).toList) := by
  have hname : ∀ x ∈ (checkName d).toList, IsNameFinding x := by
    intro x hx
    rcases eq_of_checkName (Option.mem_toList.1 hx) with rfl | ⟨name, -, rfl⟩
    · exact .inl rfl
    · exact .inr rfl
  have hothers : ∀ x ∈ (checkDescription d).toList ++
      ((checkInputVariables d).toList ++ (checkOutputSection d).toList), ¬ IsNameFinding x := by
    simp only [List.mem_append, Option.mem_toList]
    rintro x (hx | hx | hx)
    · rw [eq_of_checkDescription hx]
      exact not_isNameFinding_of_mem_otherRules (by simp [otherRules]) _ _
    · rcases eq_of_checkInputVariables hx with ⟨rfl, -⟩ | ⟨rfl, -⟩ <;>
        exact not_isNameFinding_of_mem_otherRules (by simp [otherRules]) _ _
    · rw [eq_of_checkOutputSection hx]
      exact not_isNameFinding_of_mem_otherRules (by simp [otherRules]) _ _
  rw [filterMap_checks, List.filter_append, List.filter_eq_nil_iff.2 (by simpa using hname),
    List.filter_eq_self.2 (by simpa using hothers), List.nil_append]

/-- **The line mends the name and nothing else.**  Put in front of the first closing, it sets
the name to a valid one, so nothing is found about the name any more; the frontmatter is there
as before, and neither variables nor output are touched. -/
theorem check_withNameLine (path : Path) {t n : Text} (h : (extract .strip t).isSome)
    (hn : NamePattern n) :
    ∃ i, FirstClosing t i ∧
      check path (withLineAt i (nameLine n) t) = (check path t).filter (¬ IsNameFinding ·) := by
  obtain ⟨fields, hfields⟩ := Option.isSome_iff_exists.1 h
  obtain ⟨hopens, hcloses⟩ := isSome_extract_iff.1 h
  obtain ⟨i, hi⟩ := exists_firstClosing hcloses
  have hnewline : '\n' ∉ nameLine n := not_mem_nameLine hn (by decide +kernel) (by decide)
  have hdashes : ¬ opening <+: nameLine n := fun hp =>
    absurd (List.cons_prefix_cons.1 hp).1 (by decide)
  have hwith : extract .strip (withLineAt i (nameLine n) t) = some (fields.insert "name" n) :=
    extract_withLineAt hfields hi hnewline hdashes (field?_nameLine hn)
  have hname : checkName ⟨path, withLineAt i (nameLine n) t, fields.insert "name" n⟩ = none :=
    checkName_eq_none_iff.2 ⟨n, by rw [get?_insert, if_pos rfl], hn⟩
  have hdescription :
      checkDescription ⟨path, withLineAt i (nameLine n) t, fields.insert "name" n⟩ =
        checkDescription ⟨path, t, fields⟩ := by
    have hkey : ("description" : Text) ≠ "name" := by decide +kernel
    simp only [checkDescription, nonEmpty?, get?_insert, if_neg hkey]
  have hvariables :
      checkInputVariables ⟨path, withLineAt i (nameLine n) t, fields.insert "name" n⟩ =
        checkInputVariables ⟨path, t, fields⟩ := by
    simp only [checkInputVariables, variableCount_withNameLine hopens hi hn]
  have houtput :
      checkOutputSection ⟨path, withLineAt i (nameLine n) t, fields.insert "name" n⟩ =
        checkOutputSection ⟨path, t, fields⟩ := by
    simp only [checkOutputSection, any_outputMarkers_withNameLine hopens hi hn]
  refine ⟨i, hi, ?_⟩
  simp only [check, hwith, hfields]
  rw [filterMap_checks, hname, hdescription, hvariables, houtput, filter_checks]
  rfl

/-- A prompt with two names, the later one not valid, and with a variable that begins
in the block and ends behind the closing. -/
def misnamedPrompt : Text :=
  "---\nname: old\nname: Not Valid\n$\x7binput:a\n---\nb\x7d and\n---\n"

/-- Of its four findings the line takes the first, with the shortest name there is. -/
theorem check_withNameLine_misnamedPrompt :
    (check "a.md" misnamedPrompt).map (·.ruleId) =
        [invalidName, missingDescription, singleInputVariable, noOutputSection].map (·.id) ∧
      (extract .strip misnamedPrompt).isSome ∧ NamePattern "-" ∧
      ∃ i, FirstClosing misnamedPrompt i ∧
        check "a.md" (withLineAt i (nameLine "-") misnamedPrompt) =
          (check "a.md" misnamedPrompt).filter (¬ IsNameFinding ·) :=
  have h : (extract .strip misnamedPrompt).isSome := by decide +kernel
  have hn : NamePattern "-" := isValidName_iff_namePattern.1 (by decide +kernel)
  ⟨by decide +kernel, h, hn, check_withNameLine "a.md" h hn⟩

end Prompt

end DocLint
