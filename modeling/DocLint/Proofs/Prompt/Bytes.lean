/-
# Prompts by their bytes

`read_text` and `validate_prompt` together, SPEC_FULL.md §4.2 and §7.

What is found in a prompt, read off the bytes of its file.  A file need not be
UTF-8; what is ill-formed in it is read as U+FFFD, and the checks run on the text
that comes out.  They come to what a search through the bytes comes to.

| found | in the bytes |
| --- | --- |
| frontmatter | `---` in front, `\n---` from the fourth byte on (`FramedBytes`) |
| output | `Output` or `出力` |
| input variables | segments up to a byte `7D` that hold `${input:` and one more byte (`variableSegments`) |

Nothing that the checks look for holds U+FFFD, so ill-formed bytes neither make it
nor break it (`isInfix_decodeLossy_iff`), and the braces of the text are the bytes
`7D` of the file (`splitOn_decodeLossy`).
-/

import DocLint.Lint
import DocLint.Proofs.FileTree.Answers
import DocLint.Proofs.Frontmatter.Extraction
import DocLint.Proofs.Prompt.Acceptance
import DocLint.Proofs.Prompt.Findings
import DocLint.Proofs.Text.Decoding
import Mathlib.Data.List.Infix

namespace DocLint

namespace Prompt

open Text Utf8

/-- The bytes of `---`. -/
def dashBytes : Bytes := [0x2D, 0x2D, 0x2D]

/-- The bytes of `\n---`. -/
def closingBytes : Bytes := [0x0A, 0x2D, 0x2D, 0x2D]

/-- The bytes of `Output`. -/
def outputBytes : Bytes := [0x4F, 0x75, 0x74, 0x70, 0x75, 0x74]

/-- The bytes of `出力`. -/
def outputBytesHan : Bytes := [0xE5, 0x87, 0xBA, 0xE5, 0x8A, 0x9B]

/-- The bytes of `${input:`. -/
def variableBytes : Bytes := [0x24, 0x7B, 0x69, 0x6E, 0x70, 0x75, 0x74, 0x3A]

/-- The bytes open with dashes and close from the fourth byte on. -/
def FramedBytes (content : Bytes) : Prop :=
  dashBytes <+: content ∧ ∃ i, 3 ≤ i ∧ closingBytes <+: content.drop i

/-- `segment` holds the bytes of a marker and at least one byte behind them. -/
def BearsVariableBytes (segment : Bytes) : Prop :=
  ∃ before c after, segment = before ++ variableBytes ++ c :: after

instance : DecidablePred BearsVariableBytes := fun segment =>
  decidable_of_iff (variableBytes <:+: segment.dropLast)
    (isInfix_dropLast_iff (List.cons_ne_nil _ _))

/-- The segments of the bytes, each ended by a byte `7D`. -/
def byteSegments (content : Bytes) : List Bytes := (content.splitOn 0x7D).dropLast

/-- The number of segments that bear a variable. -/
def variableSegments (content : Bytes) : Nat :=
  (byteSegments content).countP (BearsVariableBytes ·)

/-- One of the diagnostics `ds` is of the rule `r`. -/
def Reports (ds : List Diagnostic) (r : Rule) : Prop := ∃ d ∈ ds, d.ruleId = r.id

/-! ### What is searched -/

variable {content : Bytes}

/-- **Frontmatter is found by its bytes.**  Its dashes and its newline are ASCII, and ASCII is
shown for its own bytes alone. -/
theorem isSome_extract_decodeLossy_iff (mode : QuoteMode) :
    (Frontmatter.extract mode (decodeLossy content)).isSome ↔ FramedBytes content := by
  have hopens : Frontmatter.opening <+: decodeLossy content ↔ dashBytes <+: content :=
    prefix_decodeLossy_iff (List.cons_ne_nil _ _) (by decide)
  rw [Frontmatter.isSome_extract_iff, FramedBytes, hopens]
  refine and_congr_right fun ⟨rest, hcontent⟩ => ?_
  subst hcontent
  have hrest : decodeLossy (dashBytes ++ rest) = Frontmatter.opening ++ decodeLossy rest :=
    decodeLossy_encode_append Frontmatter.opening rest
  rw [hrest]
  calc (∃ i, Frontmatter.ClosesAt (Frontmatter.opening ++ decodeLossy rest) i)
      ↔ Frontmatter.closing <:+: decodeLossy rest := by
        rw [← exists_prefix_drop_iff (a := Frontmatter.opening)]
        exact exists_congr fun i => Frontmatter.closesAt_iff (List.prefix_append _ _)
    _ ↔ closingBytes <:+: rest :=
        isInfix_decodeLossy_iff (List.cons_ne_nil _ _) (by decide)
    _ ↔ ∃ i, 3 ≤ i ∧ closingBytes <+: (dashBytes ++ rest).drop i :=
        (exists_prefix_drop_iff (a := dashBytes)).symm

/-- A closing brace is shown for its own byte and for no other. -/
theorem brace_mem_decodeLossy_iff : '}' ∈ decodeLossy content ↔ 0x7D ∈ content :=
  mem_decodeLossy_iff (by decide)

/-- **The pieces of the text are the pieces of the bytes.**  A closing brace is finished before
it begins, so nothing ill-formed reaches over one. -/
theorem splitOn_decodeLossy (content : Bytes) :
    List.splitOn '}' (decodeLossy content) = (content.splitOn 0x7D).map decodeLossy := by
  by_cases hmem : 0x7D ∈ content
  · obtain ⟨before, after, rfl, hbefore⟩ := List.eq_append_cons_of_mem hmem
    have hcut : decodeLossy (before ++ 0x7D :: after) =
        decodeLossy before ++ '}' :: decodeLossy after := by
      rw [List.append_cons, List.append_cons (decodeLossy before)]
      exact decodeLossy_append_encode_append (t := ['}']) (List.cons_ne_nil _ _) before after
    have hbefore' : '}' ∉ decodeLossy before := fun h => hbefore (brace_mem_decodeLossy_iff.1 h)
    rw [hcut, List.splitOn_append_cons_self_of_not_mem hbefore',
      List.splitOn_append_cons_self_of_not_mem hbefore, List.map_cons, splitOn_decodeLossy after]
  · rw [List.splitOn_eq_singleton (fun h => hmem (brace_mem_decodeLossy_iff.1 h)),
      List.splitOn_eq_singleton hmem]
    rfl
termination_by content.length
decreasing_by
  subst_vars
  rw [List.length_append, List.length_cons]
  omega

/-- Whether a segment bears a variable can be told from its bytes. -/
theorem bearsVariable_decodeLossy_iff {segment : Bytes} :
    BearsVariable (decodeLossy segment) ↔ BearsVariableBytes segment := by
  have hmarker : variableMarker ≠ [] := List.cons_ne_nil _ _
  constructor
  · rintro ⟨before, c, after, h⟩
    obtain ⟨xs, ys, rfl, -, hys⟩ := (decodeLossy_eq_append_iff hmarker (by decide)).1 h
    cases ys with
    | nil => exact absurd hys (List.cons_ne_nil _ _).symm
    | cons b ys => exact ⟨xs, b, ys, rfl⟩
  · rintro ⟨before, b, after, rfl⟩
    obtain ⟨c, rest, hrest⟩ := List.exists_cons_of_ne_nil
      (mt decodeLossy_eq_nil_iff.1 (List.cons_ne_nil b after))
    refine ⟨decodeLossy before, c, rest, ?_⟩
    rw [← hrest]
    exact decodeLossy_append_encode_append hmarker before (b :: after)

/-- **Variables are counted by their bytes,** segment by segment, however ill-formed what stands
in them is. -/
theorem variableCount_decodeLossy (content : Bytes) :
    variableCount (decodeLossy content) = variableSegments content := by
  have hsegments : segments (decodeLossy content) = (byteSegments content).map decodeLossy := by
    rw [segments, byteSegments, splitOn_decodeLossy, List.map_dropLast]
  rw [variableCount_eq_countP, hsegments, List.countP_map, variableSegments]
  refine List.countP_congr fun segment _ => ?_
  rw [Function.comp_apply, decide_eq_true_iff, decide_eq_true_iff]
  exact bearsVariable_decodeLossy_iff

/-- **Output is found by its bytes,** also where it is spelled in six bytes that are no ASCII.
-/
theorem any_outputMarkers_decodeLossy_iff :
    outputMarkers.any (contains · (decodeLossy content)) ↔
      outputBytes <:+: content ∨ outputBytesHan <:+: content := by
  have hword : ['O', 'u', 't', 'p', 'u', 't'] <:+: decodeLossy content ↔ outputBytes <:+: content :=
    isInfix_decodeLossy_iff (List.cons_ne_nil _ _) (by decide)
  have hhan : ['出', '力'] <:+: decodeLossy content ↔ outputBytesHan <:+: content :=
    isInfix_decodeLossy_iff (List.cons_ne_nil _ _) (by decide)
  exact any_outputMarkers_iff.trans (or_congr hword hhan)

/-! ### What is reported -/

section Checks

variable {d : Document} {x : Diagnostic} {id : Text}

/-- The name is reported under one of two rules. -/
theorem id_of_checkName (h : checkName d = some x) :
    x.ruleId = missingName.id ∨ x.ruleId = invalidName.id := by
  rcases eq_of_checkName h with rfl | ⟨name, -, rfl⟩
  · exact .inl rfl
  · exact .inr rfl

/-- The variables are reported under one rule where there is none and under another where there
is one. -/
theorem exists_checkInputVariables_iff :
    (∃ x, checkInputVariables d = some x ∧ x.ruleId = id) ↔
      id = noInputVariables.id ∧ variableCount d.text = 0 ∨
        id = singleInputVariable.id ∧ variableCount d.text = 1 := by
  unfold checkInputVariables
  split
  · next h =>
    show (∃ x, some (noInputVariables.violation _ d.path) = some x ∧ _) ↔ _
    simp [h, Rule.violation, eq_comm]
  · next h =>
    show (∃ x, some (singleInputVariable.violation _ d.path) = some x ∧ _) ↔ _
    simp [h, Rule.violation, eq_comm]
  · next h₀ h₁ =>
    have hzero : variableCount d.text ≠ 0 := h₀
    have hone : variableCount d.text ≠ 1 := h₁
    simp [hzero, hone]

/-- The output section is reported where neither marker occurs in the text. -/
theorem exists_checkOutputSection_iff :
    (∃ x, checkOutputSection d = some x ∧ x.ruleId = id) ↔
      id = noOutputSection.id ∧ ¬ outputMarkers.any (contains · d.text) := by
  unfold checkOutputSection
  split
  · next h => simp [h]
  · next h =>
    show (∃ x, some (noOutputSection.violation _ d.path) = some x ∧ _) ↔ _
    simp [h, Rule.violation, eq_comm]

end Checks

/-- The rules that the fields of a prompt may break. -/
def fieldRules : List Rule := [missingName, invalidName, missingDescription]

/-- Where there is frontmatter, a rule that is not about its fields is broken by the
whole text. -/
theorem reports_check_iff {path : Path} {t : Text} {fields : Frontmatter}
    (h : Frontmatter.extract .strip t = some fields) {r : Rule}
    (hr : r.id ∉ fieldRules.map (·.id)) :
    Reports (check path t) r ↔
      (r.id = noInputVariables.id ∧ variableCount t = 0 ∨
        r.id = singleInputVariable.id ∧ variableCount t = 1) ∨
      r.id = noOutputSection.id ∧ ¬ outputMarkers.any (contains · t) := by
  rw [Reports, check, h]
  constructor
  · rintro ⟨x, hx, hid⟩
    obtain ⟨c, hc, hcx⟩ := List.mem_filterMap.1 hx
    simp only [checks, List.mem_cons, List.not_mem_nil, or_false] at hc
    rcases hc with rfl | rfl | rfl | rfl
    · rcases id_of_checkName hcx with e | e
      · exact absurd (hid.symm.trans e ▸ .head _) hr
      · exact absurd (hid.symm.trans e ▸ .tail _ (.head _)) hr
    · have hdescription := hid.symm.trans (congrArg (·.ruleId) (eq_of_checkDescription hcx))
      exact absurd (hdescription ▸ .tail _ (.tail _ (.head _))) hr
    · exact .inl (exists_checkInputVariables_iff.1 ⟨x, hcx, hid⟩)
    · exact .inr (exists_checkOutputSection_iff.1 ⟨x, hcx, hid⟩)
  · rintro (hvariables | houtput)
    · obtain ⟨x, hx, hid⟩ :=
        (exists_checkInputVariables_iff (d := ⟨path, t, fields⟩)).2 hvariables
      have hmem : checkInputVariables ∈ checks := .tail _ (.tail _ (.head _))
      exact ⟨x, List.mem_filterMap.2 ⟨_, hmem, hx⟩, hid⟩
    · obtain ⟨x, hx, hid⟩ := (exists_checkOutputSection_iff (d := ⟨path, t, fields⟩)).2 houtput
      have hmem : checkOutputSection ∈ checks := .tail _ (.tail _ (.tail _ (.head _)))
      exact ⟨x, List.mem_filterMap.2 ⟨_, hmem, hx⟩, hid⟩

section Verdict

variable {path : Path} {t : Text} {fields : Frontmatter}

/-- Frontmatter is reported as missing where nothing can be extracted, and by no other check. -/
theorem reports_missingFrontmatter_iff :
    Reports (check path t) missingFrontmatter ↔ ¬ (Frontmatter.extract .strip t).isSome := by
  cases h : Frontmatter.extract .strip t with
  | none =>
    refine ⟨fun _ => Bool.false_ne_true, fun _ => ?_⟩
    rw [Reports, check, h]
    exact ⟨_, .head _, rfl⟩
  | some fields =>
    have hnone : missingFrontmatter.id ≠ noInputVariables.id := by decide +kernel
    have hsingle : missingFrontmatter.id ≠ singleInputVariable.id := by decide +kernel
    have houtput : missingFrontmatter.id ≠ noOutputSection.id := by decide +kernel
    rw [reports_check_iff h (by decide +kernel)]
    simp [hnone, hsingle, houtput]

/-- That there is no variable is reported where the text has none, frontmatter included. -/
theorem reports_noInputVariables_iff (h : Frontmatter.extract .strip t = some fields) :
    Reports (check path t) noInputVariables ↔ variableCount t = 0 := by
  have hsingle : noInputVariables.id ≠ singleInputVariable.id := by decide +kernel
  have houtput : noInputVariables.id ≠ noOutputSection.id := by decide +kernel
  rw [reports_check_iff h (by decide +kernel)]
  simp [hsingle, houtput]

/-- That there is one variable is reported where the text has just one, frontmatter included. -/
theorem reports_singleInputVariable_iff (h : Frontmatter.extract .strip t = some fields) :
    Reports (check path t) singleInputVariable ↔ variableCount t = 1 := by
  have hnone : singleInputVariable.id ≠ noInputVariables.id := by decide +kernel
  have houtput : singleInputVariable.id ≠ noOutputSection.id := by decide +kernel
  rw [reports_check_iff h (by decide +kernel)]
  simp [hnone, houtput]

/-- That there is no output section is reported where no marker occurs in the text, frontmatter
included. -/
theorem reports_noOutputSection_iff (h : Frontmatter.extract .strip t = some fields) :
    Reports (check path t) noOutputSection ↔ ¬ outputMarkers.any (contains · t) := by
  have hnone : noOutputSection.id ≠ noInputVariables.id := by decide +kernel
  have hsingle : noOutputSection.id ≠ singleInputVariable.id := by decide +kernel
  rw [reports_check_iff h (by decide +kernel)]
  simp [hnone, hsingle]

end Verdict

/-- A file is checked as what its bytes are read as, whatever the settings say. -/
theorem validate_eq_check {tree : FileTree} {target : Path} {content : Bytes}
    (h : tree.IsFileAt target content) (settings : Settings) :
    Lint.validate tree.fileSystem settings .prompt target = check target (decodeLossy content) := by
  have hread : tree.fileSystem.readText target = .ok (decodeLossy content) :=
    FileTree.readText_eq_ok_iff.2 ⟨content, h, rfl⟩
  rw [Lint.validate, hread]

/-- **Ill-formed bytes neither hide nor fake what a prompt is made of.**  Whatever
the bytes of a file are, its frontmatter, its output and its input variables are
those that stand in the bytes. -/
theorem reports_iff_bytes {tree : FileTree} {target : Path} {content : Bytes}
    (h : tree.IsFileAt target content) (settings : Settings) :
    let ds := Lint.validate tree.fileSystem settings .prompt target
    (Reports ds missingFrontmatter ↔ ¬ FramedBytes content) ∧
      (¬ Reports ds missingFrontmatter →
        (Reports ds noOutputSection ↔
          ¬ outputBytes <:+: content ∧ ¬ outputBytesHan <:+: content) ∧
        (Reports ds noInputVariables ↔ variableSegments content = 0) ∧
        (Reports ds singleInputVariable ↔ variableSegments content = 1) ∧
        (¬ Reports ds noInputVariables ∧ ¬ Reports ds singleInputVariable ↔
          2 ≤ variableSegments content)) := by
  rw [validate_eq_check h settings]
  intro ds
  have hframed : Reports ds missingFrontmatter ↔ ¬ FramedBytes content :=
    reports_missingFrontmatter_iff.trans (not_congr (isSome_extract_decodeLossy_iff .strip))
  refine ⟨hframed, fun hreported => ?_⟩
  rw [hframed, Classical.not_not] at hreported
  obtain ⟨fields, hfields⟩ :=
    Option.isSome_iff_exists.1 ((isSome_extract_decodeLossy_iff .strip).2 hreported)
  have hnone : Reports ds noInputVariables ↔ variableSegments content = 0 := by
    rw [← variableCount_decodeLossy]
    exact reports_noInputVariables_iff hfields
  have hsingle : Reports ds singleInputVariable ↔ variableSegments content = 1 := by
    rw [← variableCount_decodeLossy]
    exact reports_singleInputVariable_iff hfields
  refine ⟨?_, hnone, hsingle, ?_⟩
  · rw [← not_or, ← any_outputMarkers_decodeLossy_iff]
    exact reports_noOutputSection_iff hfields
  · rw [hnone, hsingle]
    omega

/-- A prompt with one variable.  Its opening, its closing, its marker and its only
word are each followed by bytes that are not UTF-8. -/
def illFormedPrompt : Bytes :=
  dashBytes ++ [0xE5] ++ closingBytes ++ [0xF0, 0x9F] ++ variableBytes ++ [0x80, 0x7D] ++
    outputBytes ++ [0xE5, 0x87]

theorem reports_singleInputVariable_illFormedPrompt :
    let tree : FileTree := ⟨.directory [("p", .file illFormedPrompt)], []⟩
    let ds := Lint.validate tree.fileSystem {} .prompt "p"
    tree.IsFileAt "p" illFormedPrompt ∧ ¬ Reports ds missingFrontmatter ∧
      ¬ Reports ds noOutputSection ∧ Reports ds singleInputVariable := by
  intro tree ds
  have hfile : tree.IsFileAt "p" illFormedPrompt := by rfl
  have hbytes := reports_iff_bytes hfile {}
  have hframed : FramedBytes illFormedPrompt := ⟨by decide, 4, by decide, by decide⟩
  have hreported : ¬ Reports ds missingFrontmatter := fun h => hbytes.1.1 h hframed
  obtain ⟨houtput, -, hsingle, -⟩ := hbytes.2 hreported
  refine ⟨hfile, hreported, fun h => ?_, hsingle.2 (by decide)⟩
  exact (houtput.1 h).1 (by decide)

end Prompt

end DocLint
