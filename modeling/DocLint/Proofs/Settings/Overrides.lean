/-
# What a settings file overrides

`load`, SPEC_FULL.md §10.7: all fields default, so the file may be omitted.

A TOML document names settings by a group and a key, and has a say in these alone.

| the document has | under a known key | the setting |
| --- | --- | --- |
| nothing | | its default |
| a value of the type of the key | | the value |
| a value of another type | | there are no settings at all |

What else stands in the document does not matter, nor in which order it stands, nor whether a
group is written as a section, by dotted keys or inline (`LoadsDocument`).  A document must be
valid, of course: a number that has the form of one and no value, wherever it stands, spoils
it (`Toml.Value.fieldsAreValid`).

A file that is named must be there and hold such a document.  Only where no file is named,
and the one that is looked for instead does not resolve, all defaults hold
(`load_overrides`).
-/

import DocLint.Proofs.FileTree.Answers
import DocLint.Proofs.Toml.Tables
import DocLint.Settings.Load

namespace DocLint

namespace Settings

open Toml (Value Fields)

/-- What a document has under a key of a group. -/
def valueAt? (fields : Fields) (group key : Text) : Option Value :=
  match fields.get? group with
  | some (.table _ below) => Fields.get? below key
  | _ => none

/-- The value is a table, in whichever way it is written. -/
def isTable : Value → Bool
  | .table _ _ => true
  | _ => false

/-- The group is a table, if the document has it. -/
def IsTabular (fields : Fields) (group : Text) : Prop := (fields.get? group).all isTable

instance (fields : Fields) (group : Text) : Decidable (IsTabular fields group) :=
  inferInstanceAs (Decidable (_ = true))

/-- The largest limit. -/
def maxLimit : Nat := 18446744073709551615

/-- The value is a text, if there is one. -/
def MayBeText (value : Option Value) : Prop := ∀ v, value = some v → ∃ t, v = .string t

/-- The value is a limit, if there is one. -/
def MayBeLimit (value : Option Value) : Prop :=
  ∀ v, value = some v → ∃ n : Int, v = .integer n ∧ 0 ≤ n ∧ n ≤ maxLimit

/-- `t` is the text that the value is, or the default where there is no value. -/
def TakesText (default : Text) (value : Option Value) (t : Text) : Prop :=
  value = some (.string t) ∨ value = none ∧ t = default

/-- `p` is the path that is spelled by the text that the value is, or by the default where
there is no value. -/
def TakesPath (default : Text) (value : Option Value) (p : Path) : Prop :=
  ∃ t, TakesText default value t ∧ p = Utf8.encode t

/-- `n` is the limit that the value is, or the default where there is no value. -/
def TakesLimit (default : Nat) (value : Option Value) (n : Nat) : Prop :=
  value = some (.integer n) ∧ n ≤ maxLimit ∨ value = none ∧ n = default

/-- What the document has under the six known keys is of their types. -/
structure WellTyped (fields : Fields) : Prop where
  promptsRoot : MayBeText (valueAt? fields "prompts" "root")
  promptsSuffix : MayBeText (valueAt? fields "prompts" "suffix")
  skillsRoot : MayBeText (valueAt? fields "skills" "root")
  skillsFileName : MayBeText (valueAt? fields "skills" "file_name")
  skillsMaxLines : MayBeLimit (valueAt? fields "skills" "max_lines")
  skillsMaxDescriptionChars : MayBeLimit (valueAt? fields "skills" "max_description_chars")

/-- Each of the settings is what the document has under its key, or its default. -/
structure Overrides (fields : Fields) (s : Settings) : Prop where
  promptsRoot : TakesPath ".github/prompts" (valueAt? fields "prompts" "root") s.prompts.root
  promptsSuffix : TakesText ".prompt.md" (valueAt? fields "prompts" "suffix") s.prompts.suffix
  skillsRoot : TakesPath ".github/skills" (valueAt? fields "skills" "root") s.skills.root
  skillsFileName : TakesText "SKILL.md" (valueAt? fields "skills" "file_name") s.skills.fileName
  skillsMaxLines : TakesLimit 500 (valueAt? fields "skills" "max_lines") s.skills.maxLines
  skillsMaxDescriptionChars :
    TakesLimit 1024 (valueAt? fields "skills" "max_description_chars") s.skills.maxDescriptionChars

/-- The known keys, each with its group. -/
def knownKeys : List (Text × Text) :=
  [("prompts", "root"), ("prompts", "suffix"), ("skills", "root"), ("skills", "file_name"),
    ("skills", "max_lines"), ("skills", "max_description_chars")]

/-- Two documents have the same under every known key. -/
def SameEntries (fields fields' : Fields) : Prop :=
  ∀ k ∈ knownKeys, valueAt? fields k.1 k.2 = valueAt? fields' k.1 k.2

variable {fields fields' : Fields} {group : Text} {value : Option Value} {s : Settings}

/-! ### One key -/

/-- Reading a text field does what `TakesText` says: a string is taken, a missing field leaves
the default, and anything else is refused. -/
theorem text?_eq_some_iff {default t : Text} :
    text? default value = some t ↔ TakesText default value t := by
  cases value with
  | none => simp [text?, TakesText, eq_comm]
  | some v => cases v <;> simp [text?, TakesText]

/-- Reading a limit does what `TakesLimit` says: only an integer that is not negative and fits
64 bits is taken. -/
theorem limit?_eq_some_iff {default n : Nat} :
    limit? default value = some n ↔ TakesLimit default value n := by
  cases value with
  | none => simp [limit?, TakesLimit, eq_comm]
  | some v =>
    cases v with
    | integer m =>
      simp only [limit?, TakesLimit, maxLimit, UInt64.size, Option.some.injEq, Value.integer.injEq]
      split <;> simp <;> omega
    | _ => simp [limit?, TakesLimit]

/-- A text field is refused for its type alone. -/
theorem exists_takesText_iff (default : Text) :
    (∃ t, TakesText default value t) ↔ MayBeText value := by
  cases value with
  | none => simp [TakesText, MayBeText]
  | some v => simp [TakesText, MayBeText]

/-- A path field is refused for its type alone, as a text field is. -/
theorem exists_takesPath_iff (default : Text) :
    (∃ p, TakesPath default value p) ↔ MayBeText value := by
  rw [← exists_takesText_iff default]
  exact ⟨fun ⟨_, t, ht, _⟩ => ⟨t, ht⟩, fun ⟨t, ht⟩ => ⟨_, t, ht, rfl⟩⟩

/-- A limit is refused for its type or its size. -/
theorem exists_takesLimit_iff (default : Nat) :
    (∃ n, TakesLimit default value n) ↔ MayBeLimit value := by
  cases value with
  | none => simp [TakesLimit, MayBeLimit]
  | some v =>
    simp only [TakesLimit, MayBeLimit, Option.some.injEq, reduceCtorEq, false_and, or_false]
    constructor
    · rintro ⟨n, rfl, hn⟩ w rfl
      exact ⟨n, rfl, by omega, by omega⟩
    · intro h
      obtain ⟨n, rfl, hzero, hmost⟩ := h v rfl
      exact ⟨n.toNat, by rw [Int.toNat_of_nonneg hzero], by omega⟩

/-- **Settings can be taken from a document exactly where its known keys have their types.** -/
theorem exists_overrides_iff : (∃ s, Overrides fields s) ↔ WellTyped fields := by
  constructor
  · rintro ⟨s, h⟩
    exact ⟨(exists_takesPath_iff _).1 ⟨_, h.promptsRoot⟩,
      (exists_takesText_iff _).1 ⟨_, h.promptsSuffix⟩, (exists_takesPath_iff _).1 ⟨_, h.skillsRoot⟩,
      (exists_takesText_iff _).1 ⟨_, h.skillsFileName⟩,
      (exists_takesLimit_iff _).1 ⟨_, h.skillsMaxLines⟩,
      (exists_takesLimit_iff _).1 ⟨_, h.skillsMaxDescriptionChars⟩⟩
  · intro h
    obtain ⟨promptsRoot, hpr⟩ := (exists_takesPath_iff ".github/prompts").2 h.promptsRoot
    obtain ⟨suffix, hps⟩ := (exists_takesText_iff ".prompt.md").2 h.promptsSuffix
    obtain ⟨skillsRoot, hsr⟩ := (exists_takesPath_iff ".github/skills").2 h.skillsRoot
    obtain ⟨fileName, hsf⟩ := (exists_takesText_iff "SKILL.md").2 h.skillsFileName
    obtain ⟨maxLines, hsl⟩ := (exists_takesLimit_iff 500).2 h.skillsMaxLines
    obtain ⟨maxChars, hsc⟩ := (exists_takesLimit_iff 1024).2 h.skillsMaxDescriptionChars
    exact ⟨⟨⟨promptsRoot, suffix⟩, ⟨skillsRoot, fileName, maxLines, maxChars⟩⟩,
      hpr, hps, hsr, hsf, hsl, hsc⟩

/-! ### A group -/

/-- In a table, a setting is found by its key, and in an absent one none is; what a table holds
must be valid throughout. -/
theorem lookup?_of_isTabular (h : IsTabular fields group) (size : Nat) :
    lookup? size (fields.get? group) =
      if (fields.get? group).all Value.isValid then some fun _ key => valueAt? fields group key
      else none := by
  unfold IsTabular at h
  cases hgroup : fields.get? group with
  | none => simp [lookup?, valueAt?, hgroup]
  | some v =>
    rw [hgroup] at h
    cases v with
    | table origin below => simp [lookup?, valueAt?, hgroup, Value.isValid]
    | _ => exact absurd h Bool.false_ne_true

/-- **The prompt settings are read field by field,** each from its own key and with its own
default. -/
theorem prompts?_eq_some_iff (h : IsTabular fields "prompts") {p : PromptSettings} :
    prompts? (fields.get? "prompts") = some p ↔
      (fields.get? "prompts").all Value.isValid ∧
        TakesPath ".github/prompts" (valueAt? fields "prompts" "root") p.root ∧
        TakesText ".prompt.md" (valueAt? fields "prompts" "suffix") p.suffix := by
  simp only [prompts?, lookup?_of_isTabular h, Option.bind_eq_bind, Option.bind_eq_some_iff,
    Option.ite_none_right_eq_some, Option.some.injEq, text?_eq_some_iff]
  constructor
  · rintro ⟨find, ⟨hvalid, rfl⟩, root, hroot, suffix, hsuffix, rfl⟩
    exact ⟨hvalid, ⟨root, hroot, rfl⟩, hsuffix⟩
  · obtain ⟨_, _⟩ := p
    rintro ⟨hvalid, ⟨root, hroot, rfl⟩, hsuffix⟩
    exact ⟨_, ⟨hvalid, rfl⟩, root, hroot, _, hsuffix, rfl⟩

/-- **The skill settings are read field by field,** each from its own key and with its own
default. -/
theorem skills?_eq_some_iff (h : IsTabular fields "skills") {k : SkillSettings} :
    skills? (fields.get? "skills") = some k ↔
      (fields.get? "skills").all Value.isValid ∧
        TakesPath ".github/skills" (valueAt? fields "skills" "root") k.root ∧
        TakesText "SKILL.md" (valueAt? fields "skills" "file_name") k.fileName ∧
        TakesLimit 500 (valueAt? fields "skills" "max_lines") k.maxLines ∧
        TakesLimit 1024 (valueAt? fields "skills" "max_description_chars") k.maxDescriptionChars := by
  simp only [skills?, lookup?_of_isTabular h, Option.bind_eq_bind, Option.bind_eq_some_iff,
    Option.ite_none_right_eq_some, Option.some.injEq, text?_eq_some_iff, limit?_eq_some_iff]
  constructor
  · rintro ⟨find, ⟨hvalid, rfl⟩, root, hroot, fileName, hname, lines, hlines, chars, hchars, rfl⟩
    exact ⟨hvalid, ⟨root, hroot, rfl⟩, hname, hlines, hchars⟩
  · obtain ⟨_, _⟩ := k
    rintro ⟨hvalid, ⟨root, hroot, rfl⟩, hname, hlines, hchars⟩
    exact ⟨_, ⟨hvalid, rfl⟩, root, hroot, _, hname, _, hlines, _, hchars, rfl⟩

/-! ### A document -/

/-- **A document is valid where its groups and all its other fields are.**  So a number without
a value spoils it under an unknown key too. -/
theorem fieldsAreValid_iff_groups (h : fields.Distinct) :
    Value.fieldsAreValid fields ↔
      (fields.get? "prompts").all Value.isValid ∧ (fields.get? "skills").all Value.isValid ∧
        Value.fieldsAreValid (fields.filter (·.1 ∉ groups)) := by
  have hall (group : Text) : (fields.get? group).all Value.isValid ↔
      ∀ f ∈ fields, f.1 = group → f.2.isValid := by
    rw [Option.all_eq_true]
    constructor
    · rintro hvalid ⟨key, v⟩ hf rfl
      exact hvalid v (h.lookup_eq_some_iff.2 hf)
    · exact fun hvalid v hget => hvalid _ (h.lookup_eq_some_iff.1 hget) rfl
  rw [hall, hall, Value.fieldsAreValid_iff, Value.fieldsAreValid_iff]
  constructor
  · exact fun hvalid => ⟨fun f hf _ => hvalid f hf, fun f hf _ => hvalid f hf,
      fun f hf => hvalid f (List.mem_filter.1 hf).1⟩
  · rintro ⟨hprompts, hskills, hothers⟩ f hf
    by_cases hgroup : f.1 ∈ groups
    · rcases List.mem_cons.1 hgroup with hgroup | hgroup
      · exact hprompts f hf hgroup
      · exact hskills f hf (List.mem_singleton.1 hgroup)
    · exact hothers f (List.mem_filter.2 ⟨hf, by simpa using hgroup⟩)

/-- **The settings of a valid document are its entries and the defaults,** and a document that
is not valid has none. -/
theorem ofTable?_eq_some_iff (h : fields.Distinct) (hprompts : IsTabular fields "prompts")
    (hskills : IsTabular fields "skills") :
    ofTable? fields = some s ↔ Value.fieldsAreValid fields ∧ Overrides fields s := by
  simp only [ofTable?, Option.bind_eq_bind, Option.bind_eq_some_iff,
    Option.ite_none_right_eq_some, Option.some.injEq, prompts?_eq_some_iff hprompts,
    skills?_eq_some_iff hskills, fieldsAreValid_iff_groups h]
  constructor
  · rintro ⟨p, ⟨hp, hpr, hps⟩, k, ⟨hk, hkr, hkf, hkl, hkc⟩, hothers, rfl⟩
    exact ⟨⟨hp, hk, hothers⟩, hpr, hps, hkr, hkf, hkl, hkc⟩
  · rintro ⟨⟨hp, hk, hothers⟩, hpr, hps, hkr, hkf, hkl, hkc⟩
    exact ⟨_, ⟨hp, hpr, hps⟩, _, ⟨hk, hkr, hkf, hkl, hkc⟩, hothers, rfl⟩

/-- **Documents that have the same under the known keys have the same settings,** in whatever
order and with whatever else in them. -/
theorem SameEntries.overrides (h : SameEntries fields fields') (hs : Overrides fields s) :
    Overrides fields' s := by
  simp only [SameEntries, knownKeys, List.forall_mem_cons] at h
  obtain ⟨hpr, hps, hsr, hsf, hsl, hsc, -⟩ := h
  exact ⟨hpr ▸ hs.promptsRoot, hps ▸ hs.promptsSuffix, hsr ▸ hs.skillsRoot,
    hsf ▸ hs.skillsFileName, hsl ▸ hs.skillsMaxLines, hsc ▸ hs.skillsMaxDescriptionChars⟩

theorem SameEntries.symm (h : SameEntries fields fields') : SameEntries fields' fields :=
  fun k hk => (h k hk).symm

/-- **Where no key stands twice, a value is found wherever it stands,** so a document can be
read without regard to its order. -/
theorem valueAt?_eq_some_iff_of_tidy (h : fields.Tidy) {key : Text} {v : Value} :
    valueAt? fields group key = some v ↔
      ∃ origin below, (group, .table origin below) ∈ fields ∧ (key, v) ∈ below := by
  constructor
  · intro hvalue
    unfold valueAt? at hvalue
    split at hvalue
    case h_1 origin below hgroup =>
      exact ⟨origin, below, h.distinct.lookup_eq_some_iff.1 hgroup,
        (h.of_get? hgroup).distinct.lookup_eq_some_iff.1 hvalue⟩
    case h_2 => cases hvalue
  · rintro ⟨origin, below, hgroup, hkey⟩
    have hget : fields.get? group = some (.table origin below) :=
      h.distinct.lookup_eq_some_iff.2 hgroup
    rw [valueAt?, hget]
    exact (h.of_get? hget).distinct.lookup_eq_some_iff.2 hkey

/-- A table that is written has its fields as entries, and no other entry changes. -/
theorem valueAt?_set_table (top below : Fields) (name : Text) (origin : Toml.TableOrigin)
    (group key : Text) :
    valueAt? (top.set name (.table origin below)) group key =
      if group = name then Fields.get? below key else valueAt? top group key := by
  by_cases hgroup : group = name
  · simp [valueAt?, Fields.get?_set, hgroup]
  · simp [valueAt?, Fields.get?_set, hgroup]

/-- **A group gives the same entries in whichever way it is written:** as a section, by dotted
keys or inline. -/
theorem exists_valueAt?_spelled {d : Toml.Draft} {name : Text} {below : Fields}
    (hname : d.top.get? name = none) (hheader : d.header = []) (hne : below ≠ [])
    (hbelow : below.Distinct) {lines : List Toml.Line}
    (hlines : lines ∈ [Toml.sectionLines name below, Toml.dottedLines name below,
      Toml.inlineLines name below]) :
    ∃ d', lines.foldlM Toml.Draft.add d = some d' ∧ ∀ group key, valueAt? d'.top group key =
      if group = name then Fields.get? below key else valueAt? d.top group key := by
  obtain ⟨hsection, hdotted, hinline⟩ := Toml.adds_spelled hname hbelow
  simp only [List.mem_cons, List.not_mem_nil, or_false] at hlines
  rcases hlines with rfl | rfl | rfl
  · exact ⟨_, hsection, valueAt?_set_table _ _ _ _⟩
  · exact ⟨_, hdotted hheader hne, valueAt?_set_table _ _ _ _⟩
  · exact ⟨_, hinline hheader, valueAt?_set_table _ _ _ _⟩

/-! ### A file -/

/-- `path` resolves to a file that holds a TOML document with the table `fields`. -/
def HoldsDocument (t : FileTree) (path : Path) (fields : Fields) : Prop :=
  ∃ content document, t.IsFileAt path content ∧ Utf8.decode? content = some document ∧
    Toml.parse? document = some fields

/-- What is loaded from a file whose document has the table `fields`. -/
structure LoadsDocument (t : FileTree) (path : Path) (fields : Fields) : Prop where
  /-- A value is found under its key, wherever it stands and in whichever way its group is
  written. -/
  valueAt?_eq_some_iff : ∀ group key v, valueAt? fields group key = some v ↔
    ∃ origin below, (group, .table origin below) ∈ fields ∧ (key, v) ∈ below
  /-- There are settings where the known keys have their types, whatever else is there. -/
  isOk_iff : (∃ s, load t.fileSystem (some path) = .ok s) ↔
    Value.fieldsAreValid fields ∧ WellTyped fields
  /-- They are what the document has, and the defaults. -/
  eq_ok_iff : ∀ s, load t.fileSystem (some path) = .ok s ↔
    Value.fieldsAreValid fields ∧ Overrides fields s
  /-- Else there is an error, and no defaults. -/
  eq_error : ¬ (Value.fieldsAreValid fields ∧ WellTyped fields) →
    load t.fileSystem (some path) = .error (.malformed path)
  /-- Any other valid document that has the same under the known keys gives the same. -/
  same : ∀ t' path' fields', HoldsDocument t' path' fields' → IsTabular fields' "prompts" →
    IsTabular fields' "skills" → Value.fieldsAreValid fields → Value.fieldsAreValid fields' →
    SameEntries fields fields' →
    ∀ s, load t.fileSystem (some path) = .ok s ↔ load t'.fileSystem (some path') = .ok s

variable {t : FileTree} {path : Path} {content : Bytes}

/-- A path that resolves is read, as if it had been the default path. -/
theorem load_some_of_resolves (h : t.Resolves path) :
    load t.fileSystem (some path) = read t.fileSystem path := by
  rw [load, FileTree.leadsSomewhere_iff.2 h, if_pos rfl]

/-- **A path that does not resolve has no settings,** not even the defaults: whoever names a
file wants that file. -/
theorem load_some_of_not_resolves (h : ¬ t.Resolves path) :
    load t.fileSystem (some path) = .error (.notFound path) := by
  rw [load, if_neg (mt FileTree.leadsSomewhere_iff.1 h)]

/-- A file is read as text only if all its bytes are UTF-8; unlike a document it is not patched
up. -/
theorem readUtf8_of_isFileAt (h : t.IsFileAt path content) :
    t.fileSystem.readUtf8 path = (Utf8.decode? content).elim (.error .invalidUtf8) .ok := by
  simp only [FileSystem.readUtf8, FileTree.read_eq_ok_iff.2 h]
  cases Utf8.decode? content <;> rfl

/-- A settings path that leads to a directory cannot be read, which is not the same as missing.
-/
theorem load_some_of_isDirectoryAt (h : t.IsDirectoryAt path) :
    load t.fileSystem (some path) = .error (.unreadable path .isADirectory) := by
  rw [load_some_of_resolves (.inr h)]
  obtain ⟨entries, hentries⟩ := h
  simp only [read, FileSystem.readUtf8, FileTree.fileSystem, hentries]

/-- A settings file that is not UTF-8 is reported as unreadable. -/
theorem load_some_of_decode?_eq_none (h : t.IsFileAt path content)
    (hdecode : Utf8.decode? content = none) :
    load t.fileSystem (some path) = .error (.unreadable path .invalidUtf8) := by
  rw [load_some_of_resolves (.inl ⟨content, h⟩), read, readUtf8_of_isFileAt h, hdecode,
    Option.elim_none]

/-- A settings file that is text loads what its document says, or is reported as malformed. -/
theorem load_some_of_decode?_eq_some {document : Text} (h : t.IsFileAt path content)
    (hdecode : Utf8.decode? content = some document) :
    load t.fileSystem (some path) = (parse? document).elim (.error (.malformed path)) .ok := by
  simp only [load_some_of_resolves (.inl ⟨content, h⟩), read, readUtf8_of_isFileAt h, hdecode,
    Option.elim_some]
  cases parse? document <;> rfl

/-- What is loaded is what the table of the document says, or the document is malformed. -/
theorem load_some_of_holdsDocument (h : HoldsDocument t path fields) :
    load t.fileSystem (some path) = (ofTable? fields).elim (.error (.malformed path)) .ok := by
  obtain ⟨content, document, hfile, hdecode, hparse⟩ := h
  rw [load_some_of_decode?_eq_some hfile hdecode, parse?, hparse, Option.bind_some]

/-- A document that parses has no key twice, in whichever table. -/
theorem tidy_of_holdsDocument (h : HoldsDocument t path fields) : fields.Tidy := by
  obtain ⟨content, document, -, -, hparse⟩ := h
  exact Toml.tidy_of_parse? hparse

/-- **A parsed document loads as the settings that override the defaults where it has something
to say,** and as no others. -/
theorem eq_ok_iff_of_holdsDocument (h : HoldsDocument t path fields)
    (hprompts : IsTabular fields "prompts") (hskills : IsTabular fields "skills") (s : Settings) :
    load t.fileSystem (some path) = .ok s ↔ Value.fieldsAreValid fields ∧ Overrides fields s := by
  rw [load_some_of_holdsDocument h,
    ← ofTable?_eq_some_iff (tidy_of_holdsDocument h).distinct hprompts hskills]
  cases ofTable? fields <;> simp

/-- Whether a parsed document loads is known from the types of the fields that are read; keys
that are not known have no say. -/
theorem loadsDocument_of_holdsDocument (h : HoldsDocument t path fields)
    (hprompts : IsTabular fields "prompts") (hskills : IsTabular fields "skills") :
    LoadsDocument t path fields := by
  have heq := eq_ok_iff_of_holdsDocument h hprompts hskills
  have hok : (∃ s, load t.fileSystem (some path) = .ok s) ↔
      Value.fieldsAreValid fields ∧ WellTyped fields := by
    simp only [heq, exists_and_left, exists_overrides_iff]
  constructor
  case valueAt?_eq_some_iff =>
    exact fun _ _ _ => valueAt?_eq_some_iff_of_tidy (tidy_of_holdsDocument h)
  case isOk_iff => exact hok
  case eq_ok_iff => exact heq
  case eq_error =>
    intro hnot
    rw [← hok] at hnot
    rw [load_some_of_holdsDocument h] at hnot ⊢
    cases hsettings : ofTable? fields with
    | none => rfl
    | some s => exact absurd ⟨s, by rw [hsettings, Option.elim_some]⟩ hnot
  case same =>
    intro t' path' fields' h' hprompts' hskills' hvalid hvalid' hsame s
    rw [heq, eq_ok_iff_of_holdsDocument h' hprompts' hskills']
    exact ⟨fun ⟨_, hs⟩ => ⟨hvalid', hsame.overrides hs⟩,
      fun ⟨_, hs⟩ => ⟨hvalid, hsame.symm.overrides hs⟩⟩

/-- **A document overrides exactly what it names.**  A file that holds one gives the settings
that it names and the defaults of all others, or none, and in whichever way it is written.
Where no file is named, `defaultPath` is taken if it resolves, and all defaults if not; a file
that is named and cannot be read as such a document gives an error each time. -/
theorem load_overrides (t : FileTree) :
    (∀ path fields, HoldsDocument t path fields → IsTabular fields "prompts" →
      IsTabular fields "skills" → LoadsDocument t path fields) ∧
    (∀ (d : Toml.Draft) (name : Text) (below : Fields), d.top.get? name = none → d.header = [] →
      below ≠ [] → below.Distinct →
      ∀ lines ∈ [Toml.sectionLines name below, Toml.dottedLines name below,
          Toml.inlineLines name below],
        ∃ d', lines.foldlM Toml.Draft.add d = some d' ∧ ∀ group key, valueAt? d'.top group key =
          if group = name then Fields.get? below key else valueAt? d.top group key) ∧
    (¬ t.Resolves defaultPath → load t.fileSystem none = .ok {}) ∧
    (t.Resolves defaultPath → load t.fileSystem none = load t.fileSystem (some defaultPath)) ∧
    (∀ path, ¬ t.Resolves path → load t.fileSystem (some path) = .error (.notFound path)) ∧
    (∀ path, t.IsDirectoryAt path →
      load t.fileSystem (some path) = .error (.unreadable path .isADirectory)) ∧
    (∀ path content, t.IsFileAt path content → Utf8.decode? content = none →
      load t.fileSystem (some path) = .error (.unreadable path .invalidUtf8)) ∧
    ∀ path content document, t.IsFileAt path content → Utf8.decode? content = some document →
      Toml.parse? document = none → load t.fileSystem (some path) = .error (.malformed path) := by
  refine ⟨fun _ _ => loadsDocument_of_holdsDocument,
    fun d name below hname hheader hne hbelow lines hlines =>
      exists_valueAt?_spelled hname hheader hne hbelow hlines, fun hdefault => ?_, fun hdefault => ?_,
    fun _ => load_some_of_not_resolves, fun _ => load_some_of_isDirectoryAt,
    fun _ _ => load_some_of_decode?_eq_none, fun path content document hfile hdecode hparse => ?_⟩
  · rw [load, if_neg (mt FileTree.leadsSomewhere_iff.1 hdefault)]
  · rw [load_some_of_resolves hdefault, load, if_pos (FileTree.leadsSomewhere_iff.2 hdefault)]
  · rw [load_some_of_decode?_eq_some hfile hdecode, parse?, hparse, Option.bind_none,
      Option.elim_none]

/-- A document with one group by dotted keys, the other inline, and unknown keys beside
them, in one of them and below a header. -/
def mixedDocument : Text :=
  "skills.max_lines = 18446744073709551615\nprompts = \x7b suffix = '.md', other = [1, 2.5] \x7d\nx = 07:32\n[unknown.deep]\nskills = 3\n"

/-- A file with this document, one that is not UTF-8, one that is not TOML, and a directory. -/
def settingsFiles (name : Bytes) : FileTree :=
  ⟨.directory
    [(name, .file (Utf8.encode mixedDocument)), ("b", .file [0xFF]),
      ("c", .file (Utf8.encode "x =")), ("d", .directory [])], []⟩

/-- The document overrides two settings; every other file is refused in its own way. -/
theorem load_overrides_mixedDocument :
    let t := settingsFiles "a"
    let t' := settingsFiles defaultPath
    let s : Settings := { prompts := { suffix := ".md" }, skills := { maxLines := maxLimit } }
    (∃ fields, HoldsDocument t "a" fields ∧ LoadsDocument t "a" fields ∧ Overrides fields s) ∧
    load t.fileSystem (some "a") = .ok s ∧
    (∃ d', (Toml.dottedLines "prompts" [("root", .string "r")]).foldlM Toml.Draft.add ⟨[], []⟩ =
        some d' ∧ valueAt? d'.top "prompts" "root" = some (.string "r")) ∧
    load t.fileSystem none = .ok {} ∧ load t'.fileSystem none = .ok s ∧
    load t.fileSystem (some "e") = .error (.notFound "e") ∧
    load t.fileSystem (some "d") = .error (.unreadable "d" .isADirectory) ∧
    load t.fileSystem (some "b") = .error (.unreadable "b" .invalidUtf8) ∧
    load t.fileSystem (some "c") = .error (.malformed "c") := by
  intro t t' s
  have hresolves (t : FileTree) (p : Path) : t.Resolves p ↔ t.fileSystem.leadsSomewhere p :=
    FileTree.leadsSomewhere_iff.symm
  obtain ⟨hloads, hspelled, hdefaults, -, hmissing, hdirectory, hbytes, hmalformed⟩ :=
    load_overrides t
  obtain ⟨-, -, -, hdefault, -⟩ := load_overrides t'
  -- The document is parsed once, and all that depends on its table is read off there.
  have hread : (Toml.parse? mixedDocument).any fun fields => ofTable? fields = some s ∧
      IsTabular fields "prompts" ∧ IsTabular fields "skills" := by decide +kernel
  obtain ⟨fields, hparse, hfields⟩ := (Option.any_eq_true _ _).1 hread
  obtain ⟨hsettings, hprompts, hskills⟩ := of_decide_eq_true hfields
  have hdecode : Utf8.decode? (Utf8.encode mixedDocument) = some mixedDocument := by
    decide +kernel
  have hholds : HoldsDocument t "a" fields := ⟨_, mixedDocument, rfl, hdecode, hparse⟩
  have hholds' : HoldsDocument t' defaultPath fields :=
    ⟨_, mixedDocument, rfl, hdecode, hparse⟩
  have h := hloads "a" fields hholds hprompts hskills
  have hload : load t.fileSystem (some "a") = .ok s := by
    rw [load_some_of_holdsDocument hholds, hsettings, Option.elim_some]
  obtain ⟨hvalid, hoverrides⟩ := (h.eq_ok_iff s).1 hload
  have hload' : load t'.fileSystem (some defaultPath) = .ok s :=
    (h.same t' defaultPath fields hholds' hprompts hskills hvalid hvalid (fun _ _ => rfl) s).1 hload
  refine ⟨⟨fields, hholds, h, hoverrides⟩, hload, ?_, ?_, ?_, ?_, ?_, ?_, ?_⟩
  · obtain ⟨d', hd', hentry⟩ := hspelled ⟨[], []⟩ "prompts" [("root", .string "r")] rfl rfl
      (List.cons_ne_nil _ _) (by decide) _ (.tail _ (.head _))
    exact ⟨d', hd', hentry "prompts" "root"⟩
  · exact hdefaults (by rw [hresolves]; decide +kernel)
  · exact (hdefault (by rw [hresolves]; decide +kernel)).trans hload'
  · exact hmissing "e" (by rw [hresolves]; decide +kernel)
  · exact hdirectory "d" ⟨[], rfl⟩
  · exact hbytes "b" [0xFF] rfl (by decide +kernel)
  · have hnone : (Toml.parse? "x =").isNone := by decide +kernel
    exact hmalformed "c" _ "x =" rfl (by decide +kernel) (Option.isNone_iff_eq_none.1 hnone)

end Settings

end DocLint
