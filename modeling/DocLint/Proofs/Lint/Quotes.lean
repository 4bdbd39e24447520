/-
# What quotes change

The two modes of a value, SPEC_FULL.md §3, §4.1 and §9, the open question.

Prompts drop one layer of quotes from a value, skills keep values as written.  Nothing else
is read differently: in both modes a text has frontmatter or has none, and the keys are the
same (`extract_oneLayerApart`).

| value as written | name of a skill | name of a prompt | description of either |
| --- | --- | --- | --- |
| `n`, a name | valid | valid | there |
| `"n"` or `'n'`, with `n` a name | not valid | valid | there |
| `""` or `''` | not valid | missing | there for a skill, missing for a prompt |
| a lone quote, or two that differ | not valid | not valid | there |
| `""n""` | not valid | not valid | there |

Quotes are dropped on each line, before it is known which of several lines holds.  A look-up
that answers with the last line and then drops the quotes comes to the same
(`get?_ofBlock_strip`).
-/

import DocLint.Proofs.Frontmatter.Extraction
import DocLint.Proofs.Prompt.Acceptance
import DocLint.Proofs.Skill.Verdict

namespace DocLint

open Frontmatter Text

/-! ### Values -/

section Values

variable {v : Text}

/-- A quote stands in no name, so a name in quotes is not valid where quotes are kept. -/
theorem NamePattern.not_mem_of_quote {q : Char} (h : NamePattern v) (hq : q = '"' ∨ q = '\'') :
    q ∉ v := by
  have hnot : ¬ (('a' ≤ q ∧ q ≤ 'z') ∨ ('0' ≤ q ∧ q ≤ '9') ∨ q = '-') := by
    rcases hq with rfl | rfl <;> decide
  exact fun hmem => hnot (h.2.2 q hmem)

/-- **What is a name without quotes** is a name, or has one layer of quotes around a
name. -/
theorem namePattern_stripQuotes_iff :
    NamePattern (stripQuotes v) ↔
      NamePattern v ∨ ∃ q n, (q = '"' ∨ q = '\'') ∧ NamePattern n ∧ v = q :: n ++ [q] := by
  have hstands := standsFor_stripQuotes v
  generalize stripQuotes v = w at hstands ⊢
  cases hstands with
  | @quoted q hq w =>
    constructor
    · exact fun hw => .inr ⟨q, w, hq, hw, rfl⟩
    · rintro (hname | ⟨p, n, -, hn, heq⟩)
      · exact absurd List.mem_cons_self (hname.not_mem_of_quote hq)
      · obtain ⟨rfl, htail⟩ := List.cons.inj heq
        exact List.append_cancel_right htail ▸ hn
  | bare hbare =>
    constructor
    · exact .inl
    · rintro (hname | ⟨q, n, hq, -, rfl⟩)
      · exact hname
      · exact absurd rfl (hbare q hq n)

/-- **Without its quotes a value is empty** where it is empty or quotes nothing.  A lone quote
is kept, since it is not a pair. -/
theorem stripQuotes_eq_nil_iff :
    stripQuotes v = [] ↔ v = [] ∨ v = ['"', '"'] ∨ v = ['\'', '\''] := by
  constructor
  · intro h
    have hstands := standsFor_stripQuotes v
    rw [h] at hstands
    cases hstands with
    | quoted hq =>
      rcases hq with rfl | rfl
      · exact .inr (.inl rfl)
      · exact .inr (.inr rfl)
    | bare => exact .inl rfl
  · rintro (rfl | rfl | rfl) <;> decide

end Values

/-! ### Fields -/

namespace Frontmatter

variable {t : Text} {bare written : Frontmatter}

/-- **Dropping quotes on every line is dropping them from the value that holds.**  The last line
with a key is the same in both modes, since keys are read alike. -/
theorem get?_ofBlock_strip (block key : Text) :
    (ofBlock .strip block).get? key = ((ofBlock .preserve block).get? key).map stripQuotes := by
  refine Option.ext fun value => ?_
  rw [Option.map_eq_some_iff, get?_ofBlock_eq_some_iff]
  constructor
  · rintro ⟨raw, hraw, rfl⟩
    exact ⟨trim raw, get?_ofBlock_eq_some_iff.2 ⟨raw, hraw, rfl⟩, rfl⟩
  · rintro ⟨v, hv, rfl⟩
    obtain ⟨raw, hraw, rfl⟩ := get?_ofBlock_eq_some_iff.1 hv
    exact ⟨raw, hraw, rfl⟩

/-- Where every look-up answers with what `f` makes of another mapping's answer, the fields
are that mapping's, and `f` has been applied to their values. -/
theorem fields_eq_map {m n : Frontmatter} {f : Text → Text}
    (h : ∀ key, m.get? key = (n.get? key).map f) :
    m.fields = n.fields.map fun field => (field.1, f field.2) := by
  refine ext_of_sorted m.sorted (List.pairwise_map.2 n.sorted) fun ⟨key, value⟩ => ?_
  rw [← get?_eq_some_iff, h, Option.map_eq_some_iff, List.mem_map]
  constructor
  · rintro ⟨v, hv, rfl⟩
    exact ⟨(key, v), get?_eq_some_iff.1 hv, rfl⟩
  · rintro ⟨⟨k, v⟩, hmem, heq⟩
    obtain ⟨rfl, rfl⟩ := Prod.mk.inj heq
    exact ⟨v, get?_eq_some_iff.2 hmem, rfl⟩

/-- Stripping one layer of quotes commutes with looking a key up, so the two mappings are told
from one another value by value. -/
theorem get?_strip_of_extract (hbare : extract .strip t = some bare)
    (hwritten : extract .preserve t = some written) (key : Text) :
    bare.get? key = (written.get? key).map stripQuotes := by
  obtain ⟨block, hblock, rfl⟩ := Option.map_eq_some_iff.1 hbare
  obtain ⟨block', hblock', rfl⟩ := Option.map_eq_some_iff.1 hwritten
  obtain rfl := Option.some.inj (hblock.symm.trans hblock')
  exact get?_ofBlock_strip block key

end Frontmatter

/-! ### Rules -/

section Rules

variable {path directory file : Path} {t : Text} {settings : SkillSettings}
  {bare written : Frontmatter}

/-- **A prompt has a name where a skill has one,** and where the name is quoted once: the pair
is dropped for the one and makes the name invalid for the other. -/
theorem checkName_strip_eq_none_iff
    (h : ∀ key, bare.get? key = (written.get? key).map stripQuotes) :
    Prompt.checkName ⟨path, t, bare⟩ = none ↔
      Skill.checkName ⟨directory, file, written, settings⟩ = none ∨
        ∃ q n, (q = '"' ∨ q = '\'') ∧ NamePattern n ∧
          written.get? "name" = some (q :: n ++ [q]) := by
  rw [Prompt.checkName_eq_none_iff, Skill.checkName_eq_none_iff, h]
  cases written.get? "name" with
  | none => simp
  | some v => simpa using namePattern_stripQuotes_iff

/-- **A prompt lacks a description where a skill does,** and where nothing is quoted: two quotes
are a description for the one and none for the other. -/
theorem checkDescription_strip_ne_none_iff
    (h : ∀ key, bare.get? key = (written.get? key).map stripQuotes) :
    Prompt.checkDescription ⟨path, t, bare⟩ ≠ none ↔
      Skill.checkDescription ⟨directory, file, written, settings⟩ ≠ none ∨
        written.get? "description" = some ['"', '"'] ∨
          written.get? "description" = some ['\'', '\''] := by
  rw [ne_eq, ne_eq, Prompt.checkDescription_eq_none_iff, Skill.checkDescription_eq_none_iff, h]
  cases written.get? "description" with
  | none => simp
  | some v => simpa using stripQuotes_eq_nil_iff

end Rules

/-- The frontmatter `written` of a text, values as written, and the frontmatter `bare` of it
without quotes differ in one layer of quotes, and so do the rules that read them. -/
structure OneLayerApart (t : Text) (bare written : Frontmatter) : Prop where
  /-- Each value has lost one layer, and only values that are there have. -/
  get?_eq : ∀ key, bare.get? key = (written.get? key).map stripQuotes
  /-- The keys are the same, in the same order. -/
  keys_eq : bare.fields.map (·.1) = written.fields.map (·.1)
  /-- The name of a prompt may be quoted where that of a skill may not. -/
  name_iff : ∀ path directory file settings,
    Prompt.checkName ⟨path, t, bare⟩ = none ↔
      Skill.checkName ⟨directory, file, written, settings⟩ = none ∨
        ∃ q n, (q = '"' ∨ q = '\'') ∧ NamePattern n ∧
          written.get? "name" = some (q :: n ++ [q])
  /-- Quotes around nothing describe a skill and do not describe a prompt. -/
  description_iff : ∀ path directory file settings,
    Prompt.checkDescription ⟨path, t, bare⟩ ≠ none ↔
      Skill.checkDescription ⟨directory, file, written, settings⟩ ≠ none ∨
        written.get? "description" = some ['"', '"'] ∨
          written.get? "description" = some ['\'', '\'']

/-- **The two modes differ in one layer of quotes,** for every text.  Both extract or neither
does, the keys are the same, and what this means for the checks of both kinds follows. -/
theorem extract_oneLayerApart (t : Text) :
    ((extract .strip t).isSome ↔ (extract .preserve t).isSome) ∧
      ∀ bare written, extract .strip t = some bare → extract .preserve t = some written →
        OneLayerApart t bare written := by
  refine ⟨by rw [isSome_extract, isSome_extract], fun bare written hbare hwritten => ?_⟩
  have hget := get?_strip_of_extract hbare hwritten
  refine ⟨hget, ?_, fun _ _ _ _ => checkName_strip_eq_none_iff hget,
    fun _ _ _ _ => checkDescription_strip_ne_none_iff hget⟩
  rw [fields_eq_map hget, List.map_map]
  rfl

/-- A document whose name is set twice, quoted at last, and whose description quotes
nothing. -/
def quotedDocument : Text := "---\nname: a\ndescription: ''\nname: \"b\"\n---\n"

/-- As a prompt it is named and lacks a description; as a skill it is the other way
round. -/
theorem extract_oneLayerApart_quotedDocument :
    ∃ bare written, extract .strip quotedDocument = some bare ∧
      extract .preserve quotedDocument = some written ∧
      OneLayerApart quotedDocument bare written ∧
      Prompt.checkName ⟨"p", quotedDocument, bare⟩ = none ∧
      Skill.checkName ⟨"s", "s/SKILL.md", written, {}⟩ ≠ none ∧
      Prompt.checkDescription ⟨"p", quotedDocument, bare⟩ ≠ none ∧
      Skill.checkDescription ⟨"s", "s/SKILL.md", written, {}⟩ = none := by
  have hbare := Option.some_get (x := extract .strip quotedDocument) (by decide +kernel)
  have hwritten := Option.some_get (x := extract .preserve quotedDocument) (by decide +kernel)
  have hapart := (extract_oneLayerApart quotedDocument).2 _ _ hbare.symm hwritten.symm
  exact ⟨_, _, hbare.symm, hwritten.symm, hapart, by decide +kernel, by decide +kernel,
    by decide +kernel, by decide +kernel⟩

end DocLint
