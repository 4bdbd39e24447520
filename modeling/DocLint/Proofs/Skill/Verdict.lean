/-
# The verdict on a skill

`validate_skill_dir`, SPEC_FULL.md §4.3: seven rules, two of which stop the others.

Two things are known about the diagnostics of a skill.  There are none exactly
where the document is there and lacks nothing (`Accepted`).  And where there
are some, their rules stand together in one line of this table, in its order,
though some of the line may be missing:

| rules that can be broken together |
| --- |
| `missingDocument` |
| `unreadable` |
| `tooLong`, `missingFrontmatter` |
| `tooLong`, `missingName`, `missingDescription` |
| `tooLong`, `missingName`, `descriptionTooLong` |
| `tooLong`, `invalidName`, `directoryMismatch`, `missingDescription` |
| `tooLong`, `invalidName`, `directoryMismatch`, `descriptionTooLong` |

What excludes what, what comes first and how many diagnostics there can be is
then read off the table (`Consistent`), whatever the tree, the path, the limits
and the text.
-/

import DocLint.Proofs.FileTree.Answers
import DocLint.Proofs.Skill.Findings
import DocLint.Proofs.Text.Decoding

namespace DocLint

namespace Skill

open Frontmatter Text

/-- `text` is the document of a skill in `directory` that lacks nothing. -/
structure Accepted (directory : Path) (settings : SkillSettings) (text : Text) : Prop where
  lineCount_le : lineCount text ≤ settings.maxLines
  fields : ∃ fields, extract .preserve text = some fields ∧
    (∃ name, fields.get? "name" = some name ∧ NamePattern name ∧
      Path.lastName? directory = some (Utf8.encode name)) ∧
    ∃ description, fields.get? "description" = some description ∧ description ≠ [] ∧
      description.length ≤ settings.maxDescriptionChars

/-- How the diagnostics of one skill go together. -/
structure Consistent (ds : List Diagnostic) : Prop where
  length_le : ds.length ≤ 4
  nodup_ids : (ds.map (·.ruleId)).Nodup
  alone : ∀ d ∈ ds, d.ruleId = missingDocument.id ∨ d.ruleId = unreadable.id → ds = [d]
  missingFrontmatter_last : ∀ d ∈ ds, d.ruleId = missingFrontmatter.id →
    ds = [d] ∨ ∃ e, e.ruleId = tooLong.id ∧ ds = [e, d]
  missingName_excludes : ∀ d ∈ ds, d.ruleId = missingName.id →
    ∀ e ∈ ds, e.ruleId ≠ invalidName.id ∧ e.ruleId ≠ directoryMismatch.id
  missingDescription_excludes : ∀ d ∈ ds, d.ruleId = missingDescription.id →
    ∀ e ∈ ds, e.ruleId ≠ descriptionTooLong.id
  tooLong_first : ∀ d ∈ ds, d.ruleId = tooLong.id → ds.head? = some d

/-! ### When the checks are silent -/

variable {d : Document}

/-- A text may have as many lines as the settings allow, and no more. -/
theorem checkLineCount_eq_none_iff {file : Path} {text : Text} {settings : SkillSettings} :
    checkLineCount file text settings = none ↔ lineCount text ≤ settings.maxLines := by
  unfold checkLineCount
  simp

/-- No fault is found in a name that is there and follows the pattern; an empty one does not. -/
theorem checkName_eq_none_iff :
    checkName d = none ↔ ∃ name, d.fields.get? "name" = some name ∧ NamePattern name :=
  requiredName_eq_none_iff

/-- U+FFFD, which stands for bytes that are no text, is in no name.  So a directory that is
printed as a name has the bytes of that name. -/
theorem replacement_not_mem_of_namePattern {name : Text} (h : NamePattern name) :
    Utf8.replacement ∉ name := fun hmem => absurd (h.2.2 _ hmem) (by decide)

/-- Where there is a valid name, its check and that of the directory agree that the
directory is called by it.  The name of a directory is compared as it is printed, but no
bytes are printed as a valid name except its own. -/
theorem checkDirectoryName_eq_none_iff {name : Text} (hname : d.fields.get? "name" = some name)
    (hpattern : NamePattern name) :
    checkDirectoryName d = none ↔ Path.lastName? d.directory = some (Utf8.encode name) := by
  unfold checkDirectoryName
  rw [nonEmpty?_eq_some_iff.2 ⟨hname, hpattern.ne_nil⟩]
  cases hlast : Path.lastName? d.directory with
  | none => simp [Ne.symm hpattern.ne_nil]
  | some last =>
    simp [Path.display, Utf8.decodeLossy_eq_iff (replacement_not_mem_of_namePattern hpattern)]

/-- No fault is found in a description that is there and is not empty. -/
theorem checkDescription_eq_none_iff :
    checkDescription d = none ↔
      ∃ description, d.fields.get? "description" = some description ∧ description ≠ [] :=
  present_eq_none_iff

/-- A description may have as many characters as the settings allow.  They are counted as
characters, not as bytes. -/
theorem checkDescriptionLength_eq_none_iff {description : Text}
    (h : d.fields.get? "description" = some description) (hne : description ≠ []) :
    checkDescriptionLength d = none ↔ description.length ≤ d.settings.maxDescriptionChars := by
  unfold checkDescriptionLength
  rw [nonEmpty?_eq_some_iff.2 ⟨h, hne⟩]
  dsimp only
  split
  · next hlong =>
    exact ⟨fun e => absurd e (Option.some_ne_none _), fun e => absurd hlong (by omega)⟩
  · next hshort => exact ⟨fun _ => Nat.not_lt.1 hshort, fun _ => rfl⟩

/-- The fields are in order where each of the four checks lets them pass. -/
theorem checks_filterMap_eq_nil_iff :
    (checks.filterMap fun check => check d) = [] ↔
      checkName d = none ∧ checkDirectoryName d = none ∧ checkDescription d = none ∧
        checkDescriptionLength d = none := by
  simp [checks, List.filterMap_eq_nil_iff]

/-- **A document shows no broken rule exactly where it lacks nothing:** it is short enough, has
frontmatter, and its four fields are in order. -/
theorem checkText_eq_nil_iff {directory file : Path} {text : Text} {settings : SkillSettings} :
    checkText directory file text settings = [] ↔ Accepted directory settings text := by
  unfold checkText
  rw [List.append_eq_nil_iff, Option.toList_eq_nil_iff, checkLineCount_eq_none_iff]
  constructor
  · rintro ⟨hlines, h⟩
    refine ⟨hlines, ?_⟩
    split at h
    · exact absurd h (List.cons_ne_nil _ _)
    · next fields hfields =>
      obtain ⟨hname, hdirectory, hdescription, hlength⟩ := checks_filterMap_eq_nil_iff.1 h
      obtain ⟨name, hname, hpattern⟩ := checkName_eq_none_iff.1 hname
      obtain ⟨description, hdescription, hne⟩ := checkDescription_eq_none_iff.1 hdescription
      exact ⟨fields, hfields,
        ⟨name, hname, hpattern,
          (checkDirectoryName_eq_none_iff hname hpattern).1 hdirectory⟩,
        description, hdescription, hne,
          (checkDescriptionLength_eq_none_iff hdescription hne).1 hlength⟩
  · rintro ⟨hlines, fields, hfields, ⟨name, hname, hpattern, hdirectory⟩, description, hdescription,
      hne, hlength⟩
    refine ⟨hlines, ?_⟩
    rw [hfields]
    exact checks_filterMap_eq_nil_iff.2
      ⟨checkName_eq_none_iff.2 ⟨name, hname, hpattern⟩,
        (checkDirectoryName_eq_none_iff hname hpattern).2 hdirectory,
        checkDescription_eq_none_iff.2 ⟨description, hdescription, hne⟩,
        (checkDescriptionLength_eq_none_iff hdescription hne).2 hlength⟩

/-! ### Rules that can be broken together -/

/-- What can be broken behind the line count, by a document that was read. -/
def fieldRules : List (List Rule) :=
  [[missingFrontmatter], [missingName, missingDescription], [missingName, descriptionTooLong],
    [invalidName, directoryMismatch, missingDescription],
    [invalidName, directoryMismatch, descriptionTooLong]]

/-- The rules that can be broken together, in the order of their diagnostics. -/
def compatible : List (List Rule) :=
  [missingDocument] :: [unreadable] :: fieldRules.map (tooLong :: ·)

/-- The diagnostics `ds` are of rules in `rules`, in its order. -/
def Follows (ds : List Diagnostic) (rules : List Rule) : Prop :=
  (ds.map (·.ruleId)).Sublist (rules.map (·.id))

/-- What stands in front follows the first rules and what stands behind follows the others. -/
theorem Follows.append {ds es : List Diagnostic} {r q : List Rule} (h : Follows ds r)
    (h' : Follows es q) : Follows (ds ++ es) (r ++ q) := by
  unfold Follows
  rw [List.map_append, List.map_append]
  exact List.Sublist.append h h'

theorem Follows.mem {ds : List Diagnostic} {rules : List Rule} (h : Follows ds rules)
    {d : Diagnostic} (hd : d ∈ ds) : d.ruleId ∈ rules.map (·.id) :=
  h.subset (List.mem_map_of_mem hd)

theorem follows_nil (rules : List Rule) : Follows [] rules := List.nil_sublist _

/-- A diagnostic follows the rule that it was made from, whatever its message. -/
theorem follows_singleton {d : Diagnostic} {r : Rule} (h : d.ruleId = r.id) : Follows [d] [r] := by
  show [d.ruleId].Sublist [r.id]
  exact h ▸ List.Sublist.refl _

/-- The number of lines is reported under one rule. -/
theorem follows_checkLineCount (file : Path) (text : Text) (settings : SkillSettings) :
    Follows (checkLineCount file text settings).toList [tooLong] := by
  unfold checkLineCount
  dsimp only
  split
  · exact follows_singleton rfl
  · exact follows_nil _

/-- A name is missing, or it can be wrong in two ways, of which both can be true at once. -/
theorem follows_nameChecks (d : Document) :
    Follows ((checkName d).toList ++ (checkDirectoryName d).toList) [missingName] ∨
      Follows ((checkName d).toList ++ (checkDirectoryName d).toList)
        [invalidName, directoryMismatch] := by
  unfold checkName checkDirectoryName
  cases d.fields.nonEmpty? "name" with
  | none => exact .inl (follows_singleton rfl)
  | some name =>
    right
    dsimp only
    refine Follows.append (r := [invalidName]) (q := [directoryMismatch]) ?_ ?_
    · split
      · exact follows_nil _
      · exact follows_singleton rfl
    · split
      · exact follows_nil _
      · exact follows_singleton rfl

/-- A description is missing, or it can be too long; an empty one is missing. -/
theorem follows_descriptionChecks (d : Document) :
    Follows ((checkDescription d).toList ++ (checkDescriptionLength d).toList)
        [missingDescription] ∨
      Follows ((checkDescription d).toList ++ (checkDescriptionLength d).toList)
        [descriptionTooLong] := by
  unfold checkDescription checkDescriptionLength
  cases d.fields.nonEmpty? "description" with
  | none => exact .inl (follows_singleton rfl)
  | some description =>
    right
    dsimp only
    split
    · exact follows_singleton rfl
    · exact follows_nil _

/-- The fields of a document are reported in one of the orders that `fieldRules` lists: which of
the four checks find something is not free, since two of them exclude each other. -/
theorem follows_checks (d : Document) :
    ∃ rules ∈ fieldRules, Follows (checks.filterMap fun check => check d) rules := by
  rw [filterMap_checks, ← List.append_assoc]
  rcases follows_nameChecks d with hn | hn <;> rcases follows_descriptionChecks d with hd | hd
  · exact ⟨_, .tail _ (.head _), hn.append hd⟩
  · exact ⟨_, .tail _ (.tail _ (.head _)), hn.append hd⟩
  · exact ⟨_, .tail _ (.tail _ (.tail _ (.head _))), hn.append hd⟩
  · exact ⟨_, .tail _ (.tail _ (.tail _ (.tail _ (.head _)))), hn.append hd⟩

/-- The line count speaks first, and what is behind it follows the field rules or says that
there is no frontmatter. -/
theorem checkText_eq_append (directory file : Path) (text : Text) (settings : SkillSettings) :
    ∃ rest, checkText directory file text settings =
        (checkLineCount file text settings).toList ++ rest ∧
      ∃ rules ∈ fieldRules, Follows rest rules := by
  unfold checkText
  refine ⟨_, rfl, ?_⟩
  split
  · exact ⟨[missingFrontmatter], .head _, follows_singleton rfl⟩
  · exact follows_checks _

/-- **The diagnostics of a skill stand in one line of the table.**  The table has one line for
each way through the steps of a check, so the proof goes along these. -/
theorem follows_check (fs : FileSystem) (directory : Path) (settings : SkillSettings) :
    ∃ rules ∈ compatible, Follows (check fs directory settings) rules := by
  unfold check
  dsimp only
  split
  · split
    · next text _ =>
      obtain ⟨rest, heq, rules, hrules, hrest⟩ :=
        checkText_eq_append directory (Path.join directory settings.documentName) text settings
      rw [heq]
      exact ⟨tooLong :: rules, .tail _ (.tail _ (List.mem_map_of_mem hrules)),
        (follows_checkLineCount _ _ _).append hrest⟩
    · exact ⟨[unreadable], .tail _ (.head _), follows_singleton rfl⟩
  · exact ⟨[missingDocument], .head _, follows_singleton rfl⟩

/-! ### Reading the table -/

/-- No more than four rules are ever broken together, as the table shows line by line. -/
theorem length_le_of_mem_compatible : ∀ rules ∈ compatible, rules.length ≤ 4 := by decide

/-- No rule stands twice in a line of the table. -/
theorem nodup_of_mem_compatible : ∀ rules ∈ compatible, (rules.map (·.id)).Nodup := by
  decide +kernel

/-- A document that is missing or cannot be read is reported alone. -/
theorem length_eq_one_of_mem_compatible : ∀ rules ∈ compatible,
    missingDocument.id ∈ rules.map (·.id) ∨ unreadable.id ∈ rules.map (·.id) →
      rules.length ≤ 1 := by
  decide +kernel

/-- Where frontmatter is missing only the number of lines may be reported before it. -/
theorem eq_of_missingFrontmatter_mem : ∀ rules ∈ compatible,
    missingFrontmatter.id ∈ rules.map (·.id) →
      rules.map (·.id) = [tooLong.id, missingFrontmatter.id] := by
  decide +kernel

/-- A name that is missing is neither invalid nor compared with the directory. -/
theorem not_mem_of_missingName_mem : ∀ rules ∈ compatible,
    missingName.id ∈ rules.map (·.id) →
      invalidName.id ∉ rules.map (·.id) ∧ directoryMismatch.id ∉ rules.map (·.id) := by
  decide +kernel

/-- A description that is missing is not too long. -/
theorem not_mem_of_missingDescription_mem : ∀ rules ∈ compatible,
    missingDescription.id ∈ rules.map (·.id) → descriptionTooLong.id ∉ rules.map (·.id) := by
  decide +kernel

/-- The number of lines comes first where it is reported at all. -/
theorem head_of_tooLong_mem : ∀ rules ∈ compatible, tooLong.id ∈ rules.map (·.id) →
    rules.map (·.id) = tooLong.id :: (rules.map (·.id)).tail ∧
      tooLong.id ∉ (rules.map (·.id)).tail := by
  decide +kernel

/-- The checks of the fields do not report the number of lines. -/
theorem tooLong_not_mem_of_mem_fieldRules : ∀ rules ∈ fieldRules,
    tooLong.id ∉ rules.map (·.id) := by
  decide +kernel

/-- There are no more diagnostics than rules to follow, since each rule reports once at most. -/
theorem Follows.length_le {ds : List Diagnostic} {rules : List Rule} (h : Follows ds rules) :
    ds.length ≤ rules.length := by
  have hlen := List.Sublist.length_le h
  rwa [List.length_map, List.length_map] at hlen

theorem eq_singleton_of_mem {d : Diagnostic} {ds : List Diagnostic} (hd : d ∈ ds)
    (hlen : ds.length ≤ 1) : ds = [d] := by
  match ds, hd, hlen with
  | [e], hd, _ => rw [List.mem_singleton.1 hd]

/-- Missing frontmatter is the only diagnostic or stands behind a document that is
too long. -/
theorem Follows.missingFrontmatter_last {ds : List Diagnostic} {rules : List Rule}
    (h : Follows ds rules) (hrules : rules ∈ compatible) {d : Diagnostic} (hd : d ∈ ds)
    (hid : d.ruleId = missingFrontmatter.id) :
    ds = [d] ∨ ∃ e, e.ruleId = tooLong.id ∧ ds = [e, d] := by
  have hids := eq_of_missingFrontmatter_mem rules hrules (hid ▸ h.mem hd)
  have hsub : (ds.map (·.ruleId)).Sublist [tooLong.id, missingFrontmatter.id] := hids ▸ h
  have hlen := hsub.length_le
  rw [List.length_map] at hlen
  match ds, hd, hlen, hsub with
  | [e], hd, _, _ => exact .inl (by rw [List.mem_singleton.1 hd])
  | [e, f], hd, _, hsub =>
    have heq := hsub.eq_of_length rfl
    have he : e.ruleId = tooLong.id := (List.cons.inj heq).1
    rcases List.mem_cons.1 hd with rfl | hd
    · exact absurd (he.symm.trans hid) (by decide +kernel)
    · exact .inr ⟨e, he, by rw [List.mem_singleton.1 hd]⟩

/-- A document that is too long is called so before anything else, since its rule begins every
line it stands in. -/
theorem Follows.tooLong_first {ds : List Diagnostic} {rules : List Rule} (h : Follows ds rules)
    (hrules : rules ∈ compatible) {d : Diagnostic} (hd : d ∈ ds) (hid : d.ruleId = tooLong.id) :
    ds.head? = some d := by
  obtain ⟨hhead, htail⟩ := head_of_tooLong_mem rules hrules (hid ▸ h.mem hd)
  cases ds with
  | nil => exact absurd hd List.not_mem_nil
  | cons e es =>
    have hsub : (e.ruleId :: es.map (·.ruleId)).Sublist
        (tooLong.id :: (rules.map (·.id)).tail) := hhead ▸ h
    -- Only the first of the rules is `tooLong`, so `e` comes before it or is of it.
    rcases List.sublist_cons_iff.1 hsub with hskip | ⟨ids, hids, hrest⟩
    · have hmem : d.ruleId ∈ (e :: es).map (·.ruleId) := List.mem_map_of_mem hd
      exact absurd (hid ▸ hskip.subset hmem) htail
    · rw [← (List.cons.inj hids).2] at hrest
      rcases List.mem_cons.1 hd with rfl | hd
      · rfl
      · exact absurd (hid ▸ hrest.subset (List.mem_map_of_mem hd)) htail

/-- **What stands in one line of the table is consistent.**  Each part of consistency is decided
of the lines and carried over to what follows one. -/
theorem consistent_of_follows {ds : List Diagnostic} {rules : List Rule}
    (hrules : rules ∈ compatible) (h : Follows ds rules) : Consistent ds where
  length_le := Nat.le_trans h.length_le (length_le_of_mem_compatible rules hrules)
  nodup_ids := List.Sublist.nodup h (nodup_of_mem_compatible rules hrules)
  alone := by
    intro d hd hid
    have hmem := h.mem hd
    refine eq_singleton_of_mem hd (Nat.le_trans h.length_le ?_)
    refine length_eq_one_of_mem_compatible rules hrules ?_
    rcases hid with hid | hid
    · exact .inl (hid ▸ hmem)
    · exact .inr (hid ▸ hmem)
  missingFrontmatter_last := fun _ hd hid => h.missingFrontmatter_last hrules hd hid
  missingName_excludes := by
    intro d hd hid e he
    obtain ⟨hinvalid, hdirectory⟩ := not_mem_of_missingName_mem rules hrules (hid ▸ h.mem hd)
    exact ⟨fun heq => hinvalid (heq ▸ h.mem he), fun heq => hdirectory (heq ▸ h.mem he)⟩
  missingDescription_excludes := by
    intro d hd hid e he heq
    exact not_mem_of_missingDescription_mem rules hrules (hid ▸ h.mem hd) (heq ▸ h.mem he)
  tooLong_first := fun _ hd hid => h.tooLong_first hrules hd hid

/-- The text of a document that is called too long is so, and its lines were counted: the number
is in the diagnostic. -/
theorem observed_of_mem_checkText {directory file : Path} {text : Text} {settings : SkillSettings}
    {d : Diagnostic} (hd : d ∈ checkText directory file text settings)
    (hid : d.ruleId = tooLong.id) :
    settings.maxLines < lineCount text ∧
      d.observed = some (Text.ofNat (lineCount text) ++ " lines") := by
  obtain ⟨rest, heq, rules, hrules, hrest⟩ := checkText_eq_append directory file text settings
  rw [heq] at hd
  rcases List.mem_append.1 hd with hd | hd
  · unfold checkLineCount at hd
    dsimp only at hd
    split at hd
    · next hlong => exact ⟨hlong, by rw [List.mem_singleton.1 hd]; rfl⟩
    · exact absurd hd List.not_mem_nil
  · exact absurd (hid ▸ hrest.mem hd) (tooLong_not_mem_of_mem_fieldRules rules hrules)

/-- **What is reported as too long was measured:** the document could be read, it has more lines
than allowed, and the diagnostic says how many. -/
theorem observed_of_tooLong {fs : FileSystem} {directory : Path} {settings : SkillSettings}
    {d : Diagnostic} (hd : d ∈ check fs directory settings) (hid : d.ruleId = tooLong.id) :
    ∃ text, fs.readText (Path.join directory settings.documentName) = .ok text ∧
      settings.maxLines < lineCount text ∧
      d.observed = some (Text.ofNat (lineCount text) ++ " lines") := by
  unfold check at hd
  dsimp only at hd
  split at hd
  · split at hd
    · next text htext => exact ⟨text, htext, observed_of_mem_checkText hd hid⟩
    · rw [List.mem_singleton.1 hd] at hid
      have hne : unreadable.id ≠ tooLong.id := by decide
      exact absurd hid hne
  · rw [List.mem_singleton.1 hd] at hid
    have hne : missingDocument.id ≠ tooLong.id := by decide
    exact absurd hid hne

/-- A skill breaks no rule exactly where its document is read and lacks nothing, as text that
may have been patched up. -/
theorem check_eq_nil_iff {t : FileTree} {directory : Path} {settings : SkillSettings} :
    check t.fileSystem directory settings = [] ↔
      ∃ content, t.IsFileAt (Path.join directory settings.documentName) content ∧
        Accepted directory settings (Utf8.decodeLossy content) := by
  unfold check
  dsimp only
  constructor
  · intro h
    split at h
    · split at h
      · next text htext =>
        obtain ⟨content, hfile, rfl⟩ := FileTree.readText_eq_ok_iff.1 htext
        exact ⟨content, hfile, checkText_eq_nil_iff.1 h⟩
      · exact absurd h (List.cons_ne_nil _ _)
    · exact absurd h (List.cons_ne_nil _ _)
  · rintro ⟨content, hfile, haccepted⟩
    rw [if_pos (FileTree.leadsSomewhere_iff.2 (.inl ⟨content, hfile⟩)),
      FileTree.readText_eq_ok_iff.2 ⟨content, hfile, rfl⟩]
    exact checkText_eq_nil_iff.2 haccepted

/-- **The verdict on a skill is exact and consistent,** for every tree, path and limit.  Nothing
is found exactly in the skills that lack nothing; which rules are found broken together is
settled by one table; and a document that is too long was read and counted. -/
theorem check_verdict (t : FileTree) (directory : Path) (settings : SkillSettings) :
    (check t.fileSystem directory settings = [] ↔
      ∃ content, t.IsFileAt (Path.join directory settings.documentName) content ∧
        Accepted directory settings (Utf8.decodeLossy content)) ∧
    Consistent (check t.fileSystem directory settings) ∧
    ∀ d ∈ check t.fileSystem directory settings, d.ruleId = tooLong.id →
      ∃ content, t.IsFileAt (Path.join directory settings.documentName) content ∧
        settings.maxLines < lineCount (Utf8.decodeLossy content) ∧
        d.observed = some (Text.ofNat (lineCount (Utf8.decodeLossy content)) ++ " lines") := by
  refine ⟨check_eq_nil_iff, ?_, fun d hd hid => ?_⟩
  · obtain ⟨rules, hrules, h⟩ := follows_check t.fileSystem directory settings
    exact consistent_of_follows hrules h
  · obtain ⟨text, htext, hlong, hobserved⟩ := observed_of_tooLong hd hid
    obtain ⟨content, hfile, rfl⟩ := FileTree.readText_eq_ok_iff.1 htext
    exact ⟨content, hfile, hlong, hobserved⟩

end Skill

end DocLint
