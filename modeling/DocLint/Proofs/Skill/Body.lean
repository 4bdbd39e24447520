/-
# The body of a skill

`validate_skill_dir`, SPEC_FULL.md §4.3: what of the raw text is looked at.

What stands behind the first closing of a document is its body.  A body may hold anything:
more lines of dashes, lines that look like fields, even dashes that go on where the closing
ends.  Of all this a skill is judged by one number.

| looked at | depends on the body |
| --- | --- |
| the number of lines | yes |
| the fields | no: the first closing of the head is the first of the document |

So two documents with one head break the same rules but for `tooLong`, and altogether the
same where they have as many lines as each other or both few enough, and nowhere else
(`check_agree_of_isHead`).
-/

import DocLint.Proofs.Frontmatter.Insertion
import DocLint.Proofs.Lint.LineEndings
import DocLint.Proofs.Skill.Verdict

namespace DocLint

open Text

/-- Numbers that are written alike are the same. -/
theorem Text.ofNat_injective {m n : Nat} (h : ofNat m = ofNat n) : m = n :=
  calc m = Nat.ofDigitChars 10 (ofNat m) 0 := Nat.ofDigitChars_ten_toDigits.symm
    _ = Nat.ofDigitChars 10 (ofNat n) 0 := by rw [h]
    _ = n := Nat.ofDigitChars_ten_toDigits

namespace Frontmatter

/-- `head` is what a text that opens with dashes holds up to the end of its first
closing. -/
def IsHead (head : Text) : Prop :=
  ∃ t i, opening <+: t ∧ FirstClosing t i ∧ head = t.take (i + closing.length)

/-- **A head is its block between the opening and the closing,** with no closing before its end.
-/
theorem isHead_iff {head : Text} :
    IsHead head ↔ ∃ block, head = opening ++ block ++ closing ∧ Framed head block := by
  constructor
  · rintro ⟨t, i, hopens, hfirst, rfl⟩
    obtain ⟨block, rest, htake, hdrop, -, -, hblock⟩ := hfirst.exists_parts hopens
    have hhead : t.take (i + closing.length) = opening ++ block ++ closing := by
      rw [List.take_add, htake, hdrop, List.take_left]
    exact ⟨block, hhead, [], by rw [hhead, List.append_nil], hblock⟩
  · rintro ⟨block, hhead, hframed⟩
    obtain ⟨hopens, i, hfirst, hblock⟩ := framed_iff.1 hframed
    obtain ⟨other, rest, htake, hdrop, -⟩ := hfirst.exists_parts hopens
    obtain rfl : block = other := by rw [hblock, htake]; rfl
    have hlength : head.length = i + closing.length := by
      have hi : i = (opening ++ block).length := by
        rw [← htake, List.length_take, Nat.min_eq_left]
        exact Nat.le_of_lt (List.length_lt_of_drop_ne_nil (by simp [hdrop, closing]))
      rw [hhead, List.length_append, hi]
    exact ⟨head, i, hopens, hfirst, by rw [← hlength, List.take_length]⟩

/-- The fields are read in the head, whatever is written behind it, further lines of dashes
included. -/
theorem exists_extract_of_isHead {head : Text} (h : IsHead head) (mode : QuoteMode) :
    ∃ m, ∀ r, extract mode (head ++ r) = some m := by
  obtain ⟨block, -, hframed⟩ := isHead_iff.1 h
  exact ⟨_, extract_append (extract_eq_some_iff.2 ⟨block, hframed, rfl⟩)⟩

end Frontmatter

namespace Skill

open Frontmatter

variable {s t : Text} {settings : SkillSettings}

/-- The line counts of two documents are found fault with alike where they are the same or
neither is too high. -/
theorem checkLineCount_eq_iff (file : Path) :
    checkLineCount file s settings = checkLineCount file t settings ↔
      lineCount s = lineCount t ∨
        lineCount s ≤ settings.maxLines ∧ lineCount t ≤ settings.maxLines := by
  constructor
  · intro h
    cases ht : checkLineCount file t settings with
    | none =>
      have hs := h.trans ht
      exact .inr ⟨checkLineCount_eq_none_iff.1 hs, checkLineCount_eq_none_iff.1 ht⟩
    | some x =>
      -- The number of lines is written into the finding.
      obtain ⟨-, rfl⟩ := eq_of_checkLineCount ht
      obtain ⟨-, hs⟩ := eq_of_checkLineCount (h.trans ht)
      have hobserved := Option.some.inj (congrArg Diagnostic.observed hs)
      exact .inl (ofNat_injective (List.append_cancel_right hobserved).symm)
  · rintro (h | ⟨hs, ht⟩)
    · simp only [checkLineCount, h]
    · rw [checkLineCount_eq_none_iff.2 hs, checkLineCount_eq_none_iff.2 ht]

/-- **Leaving `tooLong` out of the findings leaves out the line count.**  What remains is found
in the fields, which the head has. -/
theorem filter_checkText {directory file : Path} {fields : Frontmatter}
    (h : extract .preserve t = some fields) :
    (checkText directory file t settings).filter (·.ruleId ≠ tooLong.id) =
      checks.filterMap fun check => check ⟨directory, file, fields, settings⟩ := by
  have hlines : (checkLineCount file t settings).toList.filter (·.ruleId ≠ tooLong.id) = [] := by
    refine List.filter_eq_nil_iff.2 fun x hx => ?_
    obtain ⟨-, rfl⟩ := eq_of_checkLineCount (Option.mem_toList.1 hx)
    simp [Rule.violationWith]
  have hfields : ∀ x ∈ checks.filterMap fun check => check ⟨directory, file, fields, settings⟩,
      x.ruleId ≠ tooLong.id := by
    obtain ⟨rules, hrules, hfollows⟩ := follows_checks ⟨directory, file, fields, settings⟩
    exact fun x hx hid => tooLong_not_mem_of_mem_fieldRules rules hrules (hid ▸ hfollows.mem hx)
  simp only [checkText, h]
  rw [List.filter_append, hlines, List.filter_eq_self.2 (by simpa using hfields), List.nil_append]

/-- **Of a body only its length counts.**  Two documents with one head, in whatever trees,
are judged alike exactly where they have as many lines as each other or both have few
enough; but for the rule about that, they are judged alike everywhere. -/
theorem check_agree_of_isHead {head : Text} (h : IsHead head) (r r' : Text) (one other : FileTree)
    (directory : Path) (settings : SkillSettings)
    (hone : one.HoldsText (Path.join directory settings.documentName) (head ++ r))
    (hother : other.HoldsText (Path.join directory settings.documentName) (head ++ r')) :
    (check one.fileSystem directory settings = check other.fileSystem directory settings ↔
      lineCount (head ++ r) = lineCount (head ++ r') ∨
        lineCount (head ++ r) ≤ settings.maxLines ∧ lineCount (head ++ r') ≤ settings.maxLines) ∧
    (check one.fileSystem directory settings).filter (·.ruleId ≠ tooLong.id) =
      (check other.fileSystem directory settings).filter (·.ruleId ≠ tooLong.id) := by
  obtain ⟨fields, hfields⟩ := exists_extract_of_isHead h .preserve
  rw [check_eq_checkText hone, check_eq_checkText hother]
  constructor
  · rw [← checkLineCount_eq_iff (Path.join directory settings.documentName)]
    simp only [checkText, hfields]
    rw [List.append_left_inj]
    exact ⟨fun hlists => by simpa using congrArg List.head? hlists, fun hcounts => by rw [hcounts]⟩
  · rw [filter_checkText (hfields r), filter_checkText (hfields r')]

/-- A skill that is named and described in four lines. -/
def readerHead : Text := "---\nname: s\ndescription: Reads.\n---"

/-- A directory with a document in it. -/
def skillWith (document : Text) : FileTree :=
  ⟨.directory [("s", .directory [("SKILL.md", .file (Utf8.encode document))])], []⟩

/-- Behind the head the dashes of the closing go on, the block is closed again and a field
is set, and only the two lines more are noticed, by a limit of five lines. -/
theorem check_agree_of_isHead_readerHead :
    let settings : SkillSettings := { maxLines := 5 }
    let forged : Text := "-\n---\nname: t"
    Frontmatter.IsHead readerHead ∧
      (skillWith (readerHead ++ [])).HoldsText (Path.join "s" settings.documentName)
        (readerHead ++ []) ∧
      (skillWith (readerHead ++ forged)).HoldsText (Path.join "s" settings.documentName)
        (readerHead ++ forged) ∧
      (check (skillWith (readerHead ++ forged)).fileSystem "s" settings).map (·.ruleId) =
        [tooLong.id] ∧
      (check (skillWith (readerHead ++ [])).fileSystem "s" settings ≠
        check (skillWith (readerHead ++ forged)).fileSystem "s" settings) ∧
      (check (skillWith (readerHead ++ [])).fileSystem "s" settings).filter
          (·.ruleId ≠ tooLong.id) =
        (check (skillWith (readerHead ++ forged)).fileSystem "s" settings).filter
          (·.ruleId ≠ tooLong.id) := by
  intro settings forged
  have hhead : Frontmatter.IsHead readerHead := by
    refine Frontmatter.isHead_iff.2 ⟨"\nname: s\ndescription: Reads.", by decide +kernel, ?_⟩
    exact Frontmatter.block?_eq_some_iff.1 (by decide +kernel)
  have hholds (document : Text) :
      (skillWith document).HoldsText (Path.join "s" settings.documentName) document :=
    ⟨Utf8.encode document, by rfl, Utf8.decodeLossy_encode document⟩
  obtain ⟨hsame, hfilter⟩ :=
    check_agree_of_isHead hhead [] forged _ _ "s" settings (hholds _) (hholds _)
  refine ⟨hhead, hholds _, hholds _, by decide +kernel, ?_, hfilter⟩
  rw [ne_eq, hsame]
  decide +kernel

end Skill

end DocLint
