/-
# Text behind a prompt

A prompt with frontmatter gets no worse by what is written behind it
(`check_append_noWorse`).

| check | what more text does |
| --- | --- |
| `checkName`, `checkDescription` | nothing: the first closing stays the first |
| `checkInputVariables` | variables are added, and none is taken away |
| `checkOutputSection` | a word that stands in the text goes on standing in it |

Of the variables of two texts put together, all but one at most belong to one of the two:
only the segment that the seam runs through can bear a variable that neither text has
(`exists_variableCount_seam`).  The findings about the variables need not go down one by
one, since a prompt without a variable that is given one trades a warning for a hint.  What
goes down is their number, in all and among the warnings (`NoWorse`).
-/

import DocLint.Proofs.Prompt.Bytes
import DocLint.Proofs.Prompt.Findings

namespace DocLint

namespace Prompt

open Frontmatter Text

/-! ### Variables -/

/-- The two counts of a text put together, by the segment that the seam runs through: it may
bear a variable where neither of its parts did, and no other segment changes. -/
theorem exists_variableCount_seam (s t : Text) :
    variableCount (s ++ t) = variableCount s + variableCount t ∨
      variableCount (s ++ t) = variableCount s + variableCount t + 1 := by
  obtain ⟨p, hp⟩ := exists_variableCount_append s
  cases hsplit : splitFirst '}' t with
  | none =>
    have ht : '}' ∉ t := splitFirst_eq_none_iff.1 hsplit
    exact .inl (by rw [(hp t ht).1, variableCount_of_not_mem ht, Nat.add_zero])
  | some parts =>
    obtain ⟨segment, rest⟩ := parts
    obtain ⟨rfl, hsegment⟩ := splitFirst_eq_some_iff.1 hsplit
    have hassoc : s ++ (segment ++ '}' :: rest) = s ++ segment ++ '}' :: rest :=
      (List.append_assoc _ _ _).symm
    rw [hassoc, (hp segment hsegment).2, variableCount_append_brace hsegment]
    -- What the segment bears by itself it bears behind `p`.
    have hseam : BearsVariable segment → BearsVariable (p ++ segment) := fun h => h.append_left p
    by_cases hjoined : BearsVariable (p ++ segment)
    · by_cases halone : BearsVariable segment
      · exact .inl (by rw [if_pos hjoined, if_pos halone, Nat.add_assoc])
      · exact .inr (by rw [if_pos hjoined, if_neg halone]; omega)
    · exact .inl (by rw [if_neg hjoined, if_neg (fun h => hjoined (hseam h))]; omega)

/-! ### What is found -/

section Findings

variable {d : Document} {x : Diagnostic}

/-- What is found in the fields blocks: a name or a description is missing, or a name is
invalid. -/
theorem severity_of_mem_fields (h : x ∈ (checkName d).toList ++ (checkDescription d).toList) :
    x.severity = .blocker := by
  rcases List.mem_append.1 h with h | h
  · rcases eq_of_checkName (Option.mem_toList.1 h) with rfl | ⟨name, -, rfl⟩ <;> rfl
  · rw [eq_of_checkDescription (Option.mem_toList.1 h)]
    rfl

/-- A warning is given where there is no variable, and a hint where there is one. -/
theorem severity_of_checkInputVariables (h : checkInputVariables d = some x) :
    x.severity = .warning ∧ variableCount d.text = 0 ∨
      x.severity = .info ∧ variableCount d.text = 1 :=
  (eq_of_checkInputVariables h).imp (fun ⟨hx, hcount⟩ => ⟨by rw [hx]; rfl, hcount⟩)
    (fun ⟨hx, hcount⟩ => ⟨by rw [hx]; rfl, hcount⟩)

/-- That there is no output section is only a hint. -/
theorem severity_of_checkOutputSection (h : checkOutputSection d = some x) : x.severity = .info := by
  rw [eq_of_checkOutputSection h]
  rfl

variable (d)

/-- **What blocks is found in the fields.**  So it stays as it is where text is written behind
the frontmatter. -/
theorem filter_blockers :
    (checks.filterMap fun check => check d).filter (·.severity = .blocker) =
      (checkName d).toList ++ (checkDescription d).toList := by
  have hwhole : ∀ x ∈ (checkInputVariables d).toList ++ (checkOutputSection d).toList,
      x.severity ≠ .blocker := by
    simp only [List.mem_append, Option.mem_toList]
    rintro x (hx | hx)
    · rcases severity_of_checkInputVariables hx with ⟨hx, -⟩ | ⟨hx, -⟩ <;> simp [hx]
    · simp [severity_of_checkOutputSection hx]
  rw [filterMap_checks, ← List.append_assoc, List.filter_append,
    List.filter_eq_self.2 fun x hx => decide_eq_true (severity_of_mem_fields hx),
    List.filter_eq_nil_iff.2 (by simpa using hwhole), List.append_nil]

/-- **A warning is given where there is no variable,** and nowhere else, so warnings are counted
by the variables. -/
theorem countP_warnings :
    (checks.filterMap fun check => check d).countP (·.severity = .warning) =
      if variableCount d.text = 0 then 1 else 0 := by
  have hfields : ((checkName d).toList ++ (checkDescription d).toList).countP
      (·.severity = .warning) = 0 :=
    List.countP_eq_zero.2 fun x hx => by simp [severity_of_mem_fields hx]
  have houtput : (checkOutputSection d).toList.countP (·.severity = .warning) = 0 :=
    List.countP_eq_zero.2 fun x hx => by
      simp [severity_of_checkOutputSection (Option.mem_toList.1 hx)]
  have hvariables : (checkInputVariables d).toList.countP (·.severity = .warning) =
      if variableCount d.text = 0 then 1 else 0 := by
    unfold checkInputVariables
    split
    · next h => rw [if_pos h]; rfl
    · next h => rw [if_neg (by rw [h]; decide)]; rfl
    · next h _ => rw [if_neg h]; rfl
  rw [filterMap_checks, ← List.append_assoc, List.countP_append, hfields, List.countP_append,
    hvariables, houtput, Nat.zero_add, Nat.add_zero]

/-- There is one diagnostic about the variables or none. -/
theorem length_checkInputVariables :
    (checkInputVariables d).toList.length = if variableCount d.text < 2 then 1 else 0 := by
  unfold checkInputVariables
  split
  · next h => rw [if_pos (by rw [h]; decide)]; rfl
  · next h => rw [if_pos (by rw [h]; decide)]; rfl
  · next h₀ h₁ =>
    have hzero : variableCount d.text ≠ 0 := h₀
    have hone : variableCount d.text ≠ 1 := h₁
    rw [if_neg (by omega)]
    rfl

theorem length_checkOutputSection :
    (checkOutputSection d).toList.length =
      if outputMarkers.any (contains · d.text) then 0 else 1 := by
  unfold checkOutputSection
  split <;> rfl

end Findings

/-- The findings `after` are no worse than the findings `before`. -/
structure NoWorse (before after : List Diagnostic) : Prop where
  blockers : after.filter (·.severity = .blocker) = before.filter (·.severity = .blocker)
  warnings : after.countP (·.severity = .warning) ≤ before.countP (·.severity = .warning)
  length_le : after.length ≤ before.length
  output : Reports after noOutputSection → Reports before noOutputSection

/-- Where nothing was found, nothing is: what gets no worse has no more findings than before. -/
theorem NoWorse.eq_nil {before after : List Diagnostic} (h : NoWorse before after)
    (hbefore : before = []) : after = [] := by
  subst hbefore
  exact List.length_eq_zero_iff.1 (Nat.le_zero.1 h.length_le)

theorem any_outputMarkers_append {t : Text} (h : outputMarkers.any (contains · t)) (s : Text) :
    outputMarkers.any (contains · (t ++ s)) := by
  rw [List.any_eq_true] at h ⊢
  obtain ⟨marker, hmarker, hcontains⟩ := h
  have hinfix : marker <:+: t ++ s :=
    (contains_iff_isInfix.1 hcontains).trans (List.prefix_append t s).isInfix
  exact ⟨marker, hmarker, contains_iff_isInfix.2 hinfix⟩

/-- **More text makes no finding worse.**  The fields are those of before, no variable goes
away, and a marker stays. -/
theorem noWorse_check_append (path : Path) {t : Text} (h : (extract .strip t).isSome) (s : Text) :
    NoWorse (check path t) (check path (t ++ s)) := by
  obtain ⟨fields, hfields⟩ := Option.isSome_iff_exists.1 h
  have happended : extract .strip (t ++ s) = some fields := extract_append hfields s
  have hcount : variableCount t ≤ variableCount (t ++ s) := by
    rcases exists_variableCount_seam t s with h | h <;> omega
  have hbefore : check path t = checks.filterMap fun check => check ⟨path, t, fields⟩ := by
    rw [check, hfields]
  have hafter : check path (t ++ s) = checks.filterMap fun check => check ⟨path, t ++ s, fields⟩ := by
    rw [check, happended]
  constructor
  · rw [hbefore, hafter, filter_blockers, filter_blockers]
    rfl
  · rw [hbefore, hafter, countP_warnings, countP_warnings]
    dsimp only
    split <;> split <;> omega
  · have hvariables : (checkInputVariables ⟨path, t ++ s, fields⟩).toList.length ≤
        (checkInputVariables ⟨path, t, fields⟩).toList.length := by
      rw [length_checkInputVariables, length_checkInputVariables]
      dsimp only
      split <;> split <;> omega
    have houtput : (checkOutputSection ⟨path, t ++ s, fields⟩).toList.length ≤
        (checkOutputSection ⟨path, t, fields⟩).toList.length := by
      rw [length_checkOutputSection, length_checkOutputSection]
      dsimp only
      split
      · exact Nat.zero_le _
      · next hnone => rw [if_neg fun hword => hnone (any_outputMarkers_append hword s)]
    have hname : checkName ⟨path, t ++ s, fields⟩ = checkName ⟨path, t, fields⟩ := rfl
    have hdescription :
        checkDescription ⟨path, t ++ s, fields⟩ = checkDescription ⟨path, t, fields⟩ := rfl
    rw [hbefore, hafter, filterMap_checks, filterMap_checks, hname, hdescription]
    simp only [List.length_append]
    omega
  · rw [reports_noOutputSection_iff hfields, reports_noOutputSection_iff happended]
    exact fun hnone hword => hnone (any_outputMarkers_append hword s)

/-- **A prompt gets no worse by what is written behind it,** and a text has the variables of its
two parts, and one more at most: the one that begins in the first part and is closed in the
second. -/
theorem check_append_noWorse :
    (∀ (path : Path) (t s : Text), (extract .strip t).isSome →
      NoWorse (check path t) (check path (t ++ s)) ∧
        (check path t = [] → check path (t ++ s) = [])) ∧
    ∀ s t : Text, variableCount s + variableCount t ≤ variableCount (s ++ t) ∧
      variableCount (s ++ t) ≤ variableCount s + variableCount t + 1 := by
  refine ⟨fun path t s h => ?_, fun s t => ?_⟩
  · have hworse : NoWorse (check path t) (check path (t ++ s)) := noWorse_check_append path h s
    exact ⟨hworse, hworse.eq_nil⟩
  · rcases exists_variableCount_seam s t with h | h <;> omega

/-- A prompt whose second variable is still open at its end. -/
def openPrompt : Text :=
  "---\nname: a\ndescription: b\n---\nOutput $\x7binput:x\x7d $\x7binput:"

/-- The prompt with the variable closed, which is a clean one. -/
def closedPrompt : Text := openPrompt ++ ("y\x7d" : Text)

/-- What closes the variable makes nothing worse, and one more open variable leaves the
clean prompt clean. -/
theorem check_append_noWorse_openPrompt :
    ((extract .strip openPrompt).isSome ∧
        NoWorse (check "a.md" openPrompt) (check "a.md" closedPrompt)) ∧
      (extract .strip closedPrompt).isSome ∧ check "a.md" closedPrompt = [] ∧
        check "a.md" (closedPrompt ++ variableMarker) = [] := by
  have hopen : (extract .strip openPrompt).isSome := by decide +kernel
  have hclosed : (extract .strip closedPrompt).isSome := by decide +kernel
  have hclean : check "a.md" closedPrompt = [] := by decide +kernel
  exact ⟨⟨hopen, (check_append_noWorse.1 "a.md" openPrompt _ hopen).1⟩, hclosed, hclean,
    (check_append_noWorse.1 "a.md" closedPrompt variableMarker hclosed).2 hclean⟩

end Prompt

end DocLint
