/-
# Verdicts do not depend on line endings

A document with a carriage return in front of every newline is judged like the
document without.

| what is read | why it stays |
| --- | --- |
| frontmatter | the block gets a return in front of every newline and one behind it; a line ends with a blank more, which belongs to no field |
| input variables | the marker holds neither character, and a body that is not empty stays so |
| output words | they hold neither character |
| line count | a return and a newline are one break |

The last needs a text in which no newline had a return already: two returns in
front of a newline are two breaks.  Nothing else does, so prompts never notice, and
skills notice in the line count only.
-/

import DocLint.Lint
import DocLint.Proofs.FileTree.Answers
import DocLint.Proofs.Frontmatter.Fields
import DocLint.Proofs.Prompt.Segments
import DocLint.Proofs.Text.Decoding
import DocLint.Proofs.Text.Returns
import Mathlib.Data.List.Basic

namespace DocLint

open Text

/-! ### Frontmatter -/

namespace Frontmatter

/-- A newline closes a block with returns where it closed the block without: the dashes behind
it are the same. -/
theorem closing_prefix_withReturns_iff {t : Text} :
    closing <+: '\n' :: withReturns t ↔ closing <+: '\n' :: t := by
  have hclosing : closing = '\n' :: opening := rfl
  have hopening : opening <+: withReturns t ↔ opening <+: t :=
    prefix_withReturns_iff (by decide) (by decide)
  rw [hclosing, List.cons_prefix_cons, List.cons_prefix_cons, hopening]

/-- The part before the first closing has its returns, and the one in front of the
closing besides. -/
theorem before?_closing_withReturns (t : Text) :
    before? closing (withReturns t) =
      (before? closing t).map fun block => withReturns block ++ ['\r'] := by
  induction t with
  | nil => rfl
  | cons c t ih =>
    by_cases hc : c = '\n'
    · subst hc
      have hreturn : ¬ closing <+: '\r' :: '\n' :: withReturns t :=
        fun hp => absurd (List.cons_prefix_cons.1 hp).1 (by decide)
      rw [withReturns_newline_cons, before?_cons_of_no_start hreturn]
      by_cases hp : closing <+: '\n' :: t
      · rw [before?_cons_of_start hp, before?_cons_of_start (closing_prefix_withReturns_iff.2 hp)]
        rfl
      · have hp' : ¬ closing <+: '\n' :: withReturns t :=
          fun hp' => hp (closing_prefix_withReturns_iff.1 hp')
        rw [before?_cons_of_no_start hp, before?_cons_of_no_start hp', ih, Option.map_map,
          Option.map_map, Option.map_map]
        rfl
    · have hno (u : Text) : ¬ closing <+: c :: u :=
        fun hp => hc (List.cons_prefix_cons.1 hp).1.symm
      rw [withReturns_cons_of_ne hc, before?_cons_of_no_start (hno _),
        before?_cons_of_no_start (hno _), ih, Option.map_map, Option.map_map]
      refine Option.map_congr fun block _ => ?_
      show c :: (withReturns block ++ ['\r']) = withReturns (c :: block) ++ ['\r']
      rw [withReturns_cons_of_ne hc]
      rfl

/-- The block of a text with returns is the block with returns, and the one in front of the
closing newline belongs to it. -/
theorem block?_withReturns (t : Text) :
    block? (withReturns t) = (block? t).map fun block => withReturns block ++ ['\r'] := by
  have hreturn : '\r' ∉ opening := by decide
  have hnewline : '\n' ∉ opening := by decide
  unfold block?
  by_cases hp : opening <+: t
  · obtain ⟨u, rfl⟩ := hp
    have ht : withReturns (opening ++ u) = opening ++ withReturns u := by
      rw [withReturns_append, withReturns_of_not_mem hnewline]
    rw [ht, if_pos (List.isPrefixOf_iff_prefix.2 (List.prefix_append _ _)),
      if_pos (List.isPrefixOf_iff_prefix.2 (List.prefix_append _ _)), List.drop_left,
      List.drop_left, before?_closing_withReturns]
  · have hp' : ¬ opening <+: withReturns t :=
      fun hp' => hp ((prefix_withReturns_iff hreturn hnewline).1 hp')
    rw [if_neg fun h => hp (List.isPrefixOf_iff_prefix.1 h),
      if_neg fun h => hp' (List.isPrefixOf_iff_prefix.1 h)]
    rfl

/-- **A block with returns holds the same fields.**  Each line ends with one blank more, and
lines are trimmed. -/
theorem ofBlock_withReturns (mode : QuoteMode) (block : Text) :
    ofBlock mode (withReturns block ++ ['\r']) = ofBlock mode block := by
  have hfield : field? mode ∘ (· ++ ['\r']) = field? mode := by
    funext line
    exact field?_append_return mode line
  rw [ofBlock_eq, ofBlock_eq, splitOn_newline_withReturns, List.filterMap_map, hfield]

/-- **Extraction takes no notice of returns,** in either mode and whatever the text. -/
theorem extract_withReturns (mode : QuoteMode) (t : Text) :
    extract mode (withReturns t) = extract mode t := by
  rw [extract, extract, block?_withReturns, Option.map_map]
  refine Option.map_congr fun block _ => ?_
  exact ofBlock_withReturns mode block

end Frontmatter

/-! ### Prompts -/

namespace Prompt

/-- Behind the marker a segment has as good as nothing with returns where it had
nothing without. -/
theorem bearsVariable_withReturns_iff {segment : Text} :
    BearsVariable (withReturns segment) ↔ BearsVariable segment := by
  constructor
  · rintro ⟨before, c, after, h⟩
    obtain ⟨a, b, rfl, hb⟩ :=
      exists_of_withReturns_eq_append (p := variableMarker) (by decide) (by decide) (by decide) h
    cases b with
    | nil => exact absurd hb (List.cons_ne_nil c after).symm
    | cons d b => exact ⟨a, d, b, rfl⟩
  · rintro ⟨before, c, after, rfl⟩
    obtain ⟨d, rest, hd⟩ := List.exists_cons_of_ne_nil (withReturns_cons_ne_nil c after)
    refine ⟨withReturns before, d, rest, ?_⟩
    rw [withReturns_append, withReturns_append, hd]
    rfl

/-- Returns bring in no variable and break none, since a marker holds neither a newline nor a
return. -/
theorem variableCount_withReturns (t : Text) :
    variableCount (withReturns t) = variableCount t := by
  have hsegments : segments (withReturns t) = (segments t).map withReturns := by
    rw [segments, segments, splitOn_withReturns (by decide) (by decide), List.map_dropLast]
  rw [variableCount_eq_countP, variableCount_eq_countP, hsegments, List.countP_map]
  refine List.countP_congr fun segment _ => ?_
  rw [Function.comp_apply, decide_eq_true_iff, decide_eq_true_iff]
  exact bearsVariable_withReturns_iff

/-- Returns bring in no output marker and break none. -/
theorem contains_outputMarker_withReturns {marker : Text} (h : marker ∈ outputMarkers) (t : Text) :
    contains marker (withReturns t) = contains marker t := by
  have hmarker : '\r' ∉ marker ∧ '\n' ∉ marker ∧ marker ≠ [] := by
    revert marker
    decide
  obtain ⟨hreturn, hnewline, hne⟩ := hmarker
  rw [Bool.eq_iff_iff, contains_iff_isInfix, contains_iff_isInfix]
  exact isInfix_withReturns_iff hreturn hnewline hne

/-- Two of the checks look at the text, and neither sees a return; the others look at the
fields. -/
theorem check_withReturns_of_mem_checks {check : Document → Option Diagnostic} (h : check ∈ checks)
    (path : Path) (t : Text) (fields : Frontmatter) :
    check ⟨path, withReturns t, fields⟩ = check ⟨path, t, fields⟩ := by
  simp only [checks, List.mem_cons, List.not_mem_nil, or_false] at h
  rcases h with rfl | rfl | rfl | rfl
  · rfl
  · rfl
  · rw [checkInputVariables, checkInputVariables, variableCount_withReturns]
  · have hany : outputMarkers.any (contains · (withReturns t)) =
        outputMarkers.any (contains · t) := by
      rw [Bool.eq_iff_iff, List.any_eq_true, List.any_eq_true]
      refine exists_congr fun marker => and_congr_right fun hmarker => ?_
      rw [contains_outputMarker_withReturns hmarker]
    rw [checkOutputSection, checkOutputSection, hany]

/-- **A prompt is judged alike,** whatever returns it had already: nothing about it is counted
in lines. -/
theorem check_withReturns (path : Path) (t : Text) :
    check path (withReturns t) = check path t := by
  rw [check, check, Frontmatter.extract_withReturns]
  split
  · rfl
  · next fields _ =>
    exact List.filterMap_congr fun check h => check_withReturns_of_mem_checks h path t fields

end Prompt

/-! ### Skills -/

namespace FileTree

/-- `p` resolves to a file that reads as `text`. -/
def HoldsText (t : FileTree) (p : Path) (text : Text) : Prop :=
  ∃ content, t.IsFileAt p content ∧ Utf8.decodeLossy content = text

end FileTree

namespace Skill

/-- **A skill is judged alike with either line ending,** unless its text has returns in front of
newlines already. -/
theorem checkText_withReturns {text : Text} (h : ¬ ['\r', '\n'] <:+: text) (directory file : Path)
    (settings : SkillSettings) :
    checkText directory file (withReturns text) settings =
      checkText directory file text settings := by
  rw [checkText, checkText, Frontmatter.extract_withReturns, checkLineCount, checkLineCount,
    lineCount_withReturns h]

/-- Of a tree, the check of a skill looks at its document only, and of that at the text. -/
theorem check_eq_checkText {t : FileTree} {directory : Path} {settings : SkillSettings}
    {text : Text} (h : t.HoldsText (Path.join directory settings.documentName) text) :
    check t.fileSystem directory settings =
      checkText directory (Path.join directory settings.documentName) text settings := by
  have hread := FileTree.readText_eq_ok_iff.2 h
  obtain ⟨content, hfile, -⟩ := h
  have hleads : t.fileSystem.leadsSomewhere (Path.join directory settings.documentName) :=
    FileTree.leadsSomewhere_iff.2 (.inl ⟨content, hfile⟩)
  rw [check, if_pos hleads, hread]

end Skill

/-- **Verdicts do not depend on line endings.**  Returns in front of the newlines
change neither what is extracted from a text nor what is found in a prompt.  Where
no newline had one already, they do not change what is found in a skill either,
whatever else the two trees hold. -/
theorem verdicts_withReturns :
    (∀ (mode : QuoteMode) (t : Text),
      Frontmatter.extract mode (withReturns t) = Frontmatter.extract mode t) ∧
    (∀ (path : Path) (t : Text), Prompt.check path (withReturns t) = Prompt.check path t) ∧
    ∀ (t : Text), ¬ ['\r', '\n'] <:+: t →
      ∀ (plain returned : FileTree) (directory : Path) (settings : SkillSettings),
        plain.HoldsText (Path.join directory settings.documentName) t →
        returned.HoldsText (Path.join directory settings.documentName) (withReturns t) →
        Skill.check returned.fileSystem directory settings =
          Skill.check plain.fileSystem directory settings := by
  refine ⟨Frontmatter.extract_withReturns, Prompt.check_withReturns, ?_⟩
  intro t ht plain returned directory settings hplain hreturned
  rw [Skill.check_eq_checkText hplain, Skill.check_eq_checkText hreturned]
  exact Skill.checkText_withReturns ht _ _ settings

/-- A skill written with either line ending. -/
theorem check_withReturns_of_named :
    let document : Text := "---\nname: s\n---\n"
    let tree (document : Text) : FileTree :=
      ⟨.directory [("s", .directory [("SKILL.md", .file (Utf8.encode document))])], []⟩
    ¬ ['\r', '\n'] <:+: document ∧ (tree document).HoldsText "s/SKILL.md" document ∧
      (tree (withReturns document)).HoldsText "s/SKILL.md" (withReturns document) ∧
      Skill.check (tree (withReturns document)).fileSystem "s" {} =
        Skill.check (tree document).fileSystem "s" {} := by
  intro document tree
  have hplain : ¬ ['\r', '\n'] <:+: document := by
    rw [← contains_iff_isInfix]
    decide +kernel
  have hholds (text : Text) : (tree text).HoldsText "s/SKILL.md" text :=
    ⟨Utf8.encode text, by rfl, Utf8.decodeLossy_encode text⟩
  refine ⟨hplain, hholds document, hholds (withReturns document), ?_⟩
  exact verdicts_withReturns.2.2 document hplain (tree document) (tree (withReturns document))
    "s" {} (hholds document) (hholds (withReturns document))

end DocLint
