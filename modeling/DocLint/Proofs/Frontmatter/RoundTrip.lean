/-
# Mappings that can be written and read back

SPEC_FULL.md §10.1: `to_block` and `extract` as a pair.

`toBlock` writes a field on a line of its own, and `extract` reads lines.  A
mapping comes back unchanged exactly where every field is plain (`IsPlain`) and
no key begins with the dashes that close a block.

| field | what comes back |
| --- | --- |
| plain | the field |
| a newline in it, a colon in the key, blanks at an end | another field, or several |
| the key begins with `---` | nothing of this line or of any behind it |

A block is written with each newline behind its line.  It is read with each
newline in front, since `\n---` closes it; `toBlock_eq` turns the one into the
other.
-/

import DocLint.Proofs.Frontmatter.Fields

namespace DocLint

namespace Frontmatter

open Text

/-- A field as one line can hold it. -/
structure IsPlain (f : Text × Text) : Prop where
  colon_not_mem : ':' ∉ f.1
  newline_not_mem_key : '\n' ∉ f.1
  newline_not_mem_value : '\n' ∉ f.2
  trim_key : trim f.1 = f.1
  trim_value : trim f.2 = f.2

/-! ### What is read is plain -/

/-- What is read from a line is plain: its parts are trimmed, its key has no colon, and neither
has a newline. -/
theorem FieldLine.isPlain {key raw line : Text} (h : FieldLine key raw line) (hline : '\n' ∉ line) :
    IsPlain (key, trim raw) := by
  obtain ⟨left, rfl, hleft, rfl⟩ := h
  rw [List.mem_append, List.mem_cons, not_or, not_or] at hline
  obtain ⟨hnl, -, hnr⟩ := hline
  exact ⟨fun hm => hleft (mem_of_mem_strip hm), fun hm => hnl (mem_of_mem_strip hm),
    fun hm => hnr (mem_of_mem_strip hm), strip_strip _ _, strip_strip _ _⟩

/-- What a value is made of in any mode is a plain field, with its quotes where the mode drops
them. -/
theorem exists_isPlain_of_extract {mode : QuoteMode} {t key value : Text} {m : Frontmatter}
    (h : extract mode t = some m) (hvalue : m.get? key = some value) :
    ∃ v, IsPlain (key, v) ∧ mode.value v = value := by
  obtain ⟨block, -, rfl⟩ := extract_eq_some_iff.1 h
  obtain ⟨raw, ⟨before, line, after, hpieces, hline, -⟩, rfl⟩ := get?_ofBlock_eq_some_iff.1 hvalue
  have hmem : line ∈ List.splitOn '\n' block := by
    rw [hpieces]
    exact List.mem_append_right before List.mem_cons_self
  exact ⟨trim raw, hline.isPlain (not_mem_of_mem_splitOn hmem), rfl⟩

/-- **What is read from a text as it stands is plain.**  So of what was read only the dashes in
front of a key can keep it from coming back. -/
theorem isPlain_of_extract {t : Text} {m : Frontmatter} (h : extract .preserve t = some m) :
    ∀ f ∈ m.fields, IsPlain f := by
  rintro ⟨key, value⟩ hf
  obtain ⟨v, hplain, rfl⟩ := exists_isPlain_of_extract h (get?_eq_some_iff.2 hf)
  exact hplain

/-- Dropping quotes adds nothing, so what a quoted value has no character of, its content has
none of. -/
theorem mem_of_mem_stripQuotes {c : Char} {t : Text} (h : c ∈ stripQuotes t) : c ∈ t := by
  fun_cases stripQuotes t with
  | case1 => exact h
  | case2 q rest hquoted =>
    rw [stripQuotes, if_pos hquoted] at h
    exact List.mem_cons_of_mem q ((List.dropLast_sublist rest).subset h)
  | case3 q rest hbare =>
    rwa [stripQuotes, if_neg hbare] at h

/-- **A value was read from one line,** so it is on one line.  This is why no value can break
the line of a diagnostic in two. -/
theorem newline_not_mem_of_extract {mode : QuoteMode} {t key value : Text} {m : Frontmatter}
    (h : extract mode t = some m) (hvalue : m.get? key = some value) : '\n' ∉ value := by
  obtain ⟨v, hplain, rfl⟩ := exists_isPlain_of_extract h hvalue
  cases mode with
  | strip => exact fun hmem => hplain.newline_not_mem_value (mem_of_mem_stripQuotes hmem)
  | preserve => exact hplain.newline_not_mem_value

/-! ### What is written -/

/-- The line of a field without its newline. -/
def fieldText (f : Text × Text) : Text := f.1 ++ ':' :: ' ' :: f.2

/-- The lines of fields, each with a newline in front. -/
def fieldLines (fields : List (Text × Text)) : Text := fields.flatMap fun f => '\n' :: fieldText f

theorem fieldLines_cons (f : Text × Text) (fields : List (Text × Text)) :
    fieldLines (f :: fields) = '\n' :: (fieldText f ++ fieldLines fields) := rfl

theorem fieldLines_append (a b : List (Text × Text)) :
    fieldLines (a ++ b) = fieldLines a ++ fieldLines b :=
  List.flatMap_append

/-- Newlines behind the lines, with one in front of all, are newlines in front of
the lines, with one behind all. -/
theorem newline_cons_flatMap_fieldLine (fields : List (Text × Text)) :
    '\n' :: fields.flatMap fieldLine = fieldLines fields ++ ['\n'] := by
  induction fields with
  | nil => rfl
  | cons f fields ih =>
    rw [List.flatMap_cons, fieldLines_cons, List.cons_append, List.append_assoc, ← ih]
    simp [fieldLine, fieldText]

/-- A block is the opening, one line for each field, and the closing. -/
theorem toBlock_eq (m : Frontmatter) :
    toBlock m = opening ++ (fieldLines m.fields ++ (closing ++ ['\n'])) := by
  have hclosing : closing = '\n' :: opening := rfl
  have hlines := newline_cons_flatMap_fieldLine m.fields
  rw [toBlock, hclosing, List.append_assoc opening, List.singleton_append, hlines]
  simp

/-! ### Reading what was written -/

/-- A field is written in one line unless its key or its value has a newline. -/
theorem newline_not_mem_fieldText {key value : Text} (hkey : '\n' ∉ key) (hvalue : '\n' ∉ value) :
    '\n' ∉ fieldText (key, value) := by
  simp [fieldText, hkey, hvalue]

/-- **The line of a field is read as that field,** its value trimmed and, in one mode,
unquoted. -/
theorem field?_fieldText {mode : QuoteMode} {key : Text} (hcolon : ':' ∉ key)
    (htrim : trim key = key) (value : Text) :
    field? mode (fieldText (key, value)) = some (key, mode.value (trim value)) := by
  rw [fieldText, field?_append_colon hcolon, htrim, trim_space_cons]

/-- A plain field is written in one line, since neither its key nor its value has a newline. -/
theorem IsPlain.newline_not_mem {f : Text × Text} (h : IsPlain f) : '\n' ∉ fieldText f :=
  newline_not_mem_fieldText h.newline_not_mem_key h.newline_not_mem_value

/-- The line of a plain field is read as that field: its first colon is the one that was
written, and nothing is trimmed. -/
theorem IsPlain.field?_fieldText {f : Text × Text} (h : IsPlain f) :
    field? .preserve (fieldText f) = some f := by
  rw [Frontmatter.field?_fieldText h.colon_not_mem h.trim_key, QuoteMode.value, h.trim_value]

/-- Plain fields come back as the lines of the block, one for each. -/
theorem splitOn_append_fieldLines {fields : List (Text × Text)} (h : ∀ f ∈ fields, IsPlain f)
    {a : Text} (ha : '\n' ∉ a) :
    List.splitOn '\n' (a ++ fieldLines fields) = a :: fields.map fieldText := by
  induction fields generalizing a with
  | nil => simpa [fieldLines] using List.splitOn_eq_singleton ha
  | cons f fields ih =>
    obtain ⟨hf, hfields⟩ := List.forall_mem_cons.1 h
    rw [fieldLines_cons, List.splitOn_append_cons_self_of_not_mem ha, ih hfields hf.newline_not_mem,
      List.map_cons]

/-- A block of plain fields holds these fields, line by line. -/
theorem ofBlock_fieldLines {fields : List (Text × Text)} (h : ∀ f ∈ fields, IsPlain f) :
    ofBlock .preserve (fieldLines fields) = ofList fields := by
  have hfields : (fields.map fieldText).filterMap (field? .preserve) = fields := by
    induction fields with
    | nil => rfl
    | cons f fields ih =>
      obtain ⟨hf, hrest⟩ := List.forall_mem_cons.1 h
      rw [List.map_cons, List.filterMap_cons_some hf.field?_fieldText, ih hrest]
  have hpieces := splitOn_append_fieldLines h (List.not_mem_nil (a := '\n'))
  rw [List.nil_append] at hpieces
  rw [ofBlock_eq, hpieces, List.filterMap_cons_none (field?_nil _), hfields]

/-- A stretch without a newline closes no block, so the search for a closing passes it over. -/
theorem before?_closing_append {skipped : Text} (h : '\n' ∉ skipped) (t : Text) :
    before? closing (skipped ++ t) = (before? closing t).map (skipped ++ ·) :=
  before?_append h t

/-- Plain fields whose keys do not begin with dashes do not close a block: each of their lines
begins with a key.  By induction on the fields. -/
theorem before?_closing_fieldLines {fields : List (Text × Text)}
    (h : ∀ f ∈ fields, IsPlain f ∧ ¬ opening <+: f.1) (rest : Text) :
    before? closing (fieldLines fields ++ (closing ++ rest)) = some (fieldLines fields) := by
  induction fields with
  | nil => exact before?_cons_of_start (List.prefix_append closing rest)
  | cons f fields ih =>
    obtain ⟨⟨hf, hdash⟩, hfields⟩ := List.forall_mem_cons.1 h
    have hnot :
        ¬ closing <+: '\n' :: (fieldText f ++ (fieldLines fields ++ (closing ++ rest))) := by
      intro hp
      have hp' : opening <+: fieldText f ++ (fieldLines fields ++ (closing ++ rest)) :=
        (List.cons_prefix_cons.1 hp).2
      rw [fieldText, List.append_assoc, List.cons_append] at hp'
      exact hdash (prefix_of_prefix_append_cons (by decide) hp')
    rw [fieldLines_cons, List.cons_append, List.append_assoc, before?_cons_of_no_start hnot,
      before?_closing_append hf.newline_not_mem, ih hfields]
    rfl

/-- A text that opens with such fields and closes behind them has them for a block, whatever
comes after. -/
theorem extract_fieldLines {fields : List (Text × Text)}
    (h : ∀ f ∈ fields, IsPlain f ∧ ¬ opening <+: f.1) (rest : Text) :
    extract .preserve (opening ++ (fieldLines fields ++ (closing ++ rest))) =
      some (ofList fields) := by
  rw [extract, block?, if_pos (List.isPrefixOf_iff_prefix.2 (List.prefix_append _ _)),
    List.drop_left, before?_closing_fieldLines h, Option.map_some,
    ofBlock_fieldLines fun f hf => (h f hf).1]

/-- A key stands once in a mapping, so the other fields have other keys. -/
theorem key_ne_of_fields_eq {m : Frontmatter} {before after : List (Text × Text)} {f : Text × Text}
    (h : m.fields = before ++ f :: after) :
    (∀ g ∈ before, g.1 ≠ f.1) ∧ ∀ g ∈ after, g.1 ≠ f.1 := by
  have hs := m.sorted
  rw [h] at hs
  obtain ⟨-, hafter, hbefore⟩ := List.pairwise_append.1 hs
  refine ⟨fun g hg heq => ?_, fun g hg heq => ?_⟩
  · exact List.lt_irrefl f.1 (heq ▸ hbefore g hg f List.mem_cons_self)
  · exact List.lt_irrefl f.1 (heq ▸ (List.pairwise_cons.1 hafter).1 g hg)

/-- **The fields of a mapping build the mapping.**  They are in order and no key stands twice,
so each is found where it was. -/
theorem ofList_fields (m : Frontmatter) : ofList m.fields = m := by
  refine ext_get? fun key => Option.ext fun value => ?_
  rw [get?_ofList_eq_some_iff, get?_eq_some_iff]
  constructor
  · rintro ⟨before, after, hfields, -⟩
    rw [hfields]
    exact List.mem_append_right before List.mem_cons_self
  · intro hmem
    obtain ⟨before, after, hfields⟩ := List.append_of_mem hmem
    exact ⟨before, after, hfields, (key_ne_of_fields_eq hfields).2⟩

/-- Where a key begins with dashes, nothing of it comes back, so the mapping does not. -/
theorem extract_toBlock_ne_of_dashes {m : Frontmatter} (hplain : ∀ f ∈ m.fields, IsPlain f)
    (h : ∃ f ∈ m.fields, opening <+: f.1) : extract .preserve (toBlock m) ≠ some m := by
  -- The first key with dashes closes the block, so only the fields before it are read.
  obtain ⟨bad, hfind⟩ : ∃ bad, m.fields.find? (fun f => opening.isPrefixOf f.1) = some bad := by
    obtain ⟨f, hf, hdash⟩ := h
    exact Option.isSome_iff_exists.1
      (List.find?_isSome.2 ⟨f, hf, List.isPrefixOf_iff_prefix.2 hdash⟩)
  obtain ⟨hbad, good, later, hfields, hgood⟩ := List.find?_eq_some_iff_append.1 hfind
  obtain ⟨u, hu⟩ := List.isPrefixOf_iff_prefix.1 hbad
  have hwritten : toBlock m = opening ++ (fieldLines good ++
      (closing ++ (u ++ ':' :: ' ' :: bad.2 ++ fieldLines later ++ closing ++ ['\n']))) := by
    rw [toBlock_eq, hfields, fieldLines_append, fieldLines_cons, fieldText, ← hu]
    simp [opening, closing]
  have hgood' : ∀ f ∈ good, IsPlain f ∧ ¬ opening <+: f.1 := by
    intro f hf
    refine ⟨hplain f (hfields ▸ List.mem_append_left _ hf), fun hdash => ?_⟩
    have hno := hgood f hf
    rw [List.isPrefixOf_iff_prefix.2 hdash] at hno
    exact absurd hno (by decide)
  rw [hwritten, extract_fieldLines hgood']
  intro heq
  have hvalue : (ofList good).get? bad.1 = some bad.2 := by
    rw [Option.some.inj heq, get?_eq_some_iff, hfields]
    exact List.mem_append_right good List.mem_cons_self
  obtain ⟨before, after, hsplit, -⟩ := get?_ofList_eq_some_iff.1 hvalue
  have hmem : (bad.1, bad.2) ∈ good := hsplit ▸ List.mem_append_right before List.mem_cons_self
  exact (key_ne_of_fields_eq hfields).1 _ hmem rfl

/-- **Which mappings come back.**  Writing and reading keep a mapping exactly where its fields
are plain and no key begins with the dashes that close a block.  Both directions are for every
mapping, whether or not a text has it. -/
theorem extract_toBlock_iff (m : Frontmatter) :
    extract .preserve (toBlock m) = some m ↔
      ∀ f ∈ m.fields, ':' ∉ f.1 ∧ '\n' ∉ f.1 ∧ '\n' ∉ f.2 ∧ trim f.1 = f.1 ∧ trim f.2 = f.2 ∧
        ¬ opening <+: f.1 := by
  constructor
  · intro h f hf
    have hplain := isPlain_of_extract h
    obtain ⟨hcolon, hkey, hvalue, htrimKey, htrimValue⟩ := hplain f hf
    refine ⟨hcolon, hkey, hvalue, htrimKey, htrimValue, fun hdash => ?_⟩
    exact extract_toBlock_ne_of_dashes hplain ⟨f, hf, hdash⟩ h
  · intro h
    have hgood : ∀ f ∈ m.fields, IsPlain f ∧ ¬ opening <+: f.1 := by
      intro f hf
      obtain ⟨hcolon, hkey, hvalue, htrimKey, htrimValue, hdash⟩ := h f hf
      exact ⟨⟨hcolon, hkey, hvalue, htrimKey, htrimValue⟩, hdash⟩
    rw [toBlock_eq, extract_fieldLines hgood, ofList_fields]

/-- A key that begins with dashes closes the block, though it is one line and has
no colon. -/
example : extract .preserve (toBlock (ofList [("---a", "b"), ("c", "d")])) = some empty := by
  decide +kernel

end Frontmatter

end DocLint
