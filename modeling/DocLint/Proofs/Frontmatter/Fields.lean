/-
# What a block says

The lines of a block, SPEC_FULL.md §4.1: the first colon splits, the last write wins.

The mapping of a block in terms of the text alone.  The fields are cut from the
block at its newlines and nothing else: stripped newlines and dropped carriage
returns make no difference (`ofBlock_eq`).  Of several fields with one key the
last one holds, so a look-up answers with the value on the last line that has
the key (`get?_ofBlock_eq_some_iff`).

| notion | meaning |
| --- | --- |
| `Framed t b` | `b` stands between the opening of `t` and the first closing behind it |
| `FieldLine k r l` | `r` follows the first colon of `l`, and what precedes it trims to `k` |
| `LastField b k r` | the last line of `b` with the key `k` has `r` behind its colon |
-/

import DocLint.Frontmatter.Block
import DocLint.Name
import DocLint.Proofs.Text.Occurrence
import DocLint.Proofs.Text.Pieces

namespace DocLint

namespace Frontmatter

open Text

/-- `block` stands in `t` between the opening and the first closing behind it. -/
def Framed (t block : Text) : Prop :=
  ∃ rest, t = opening ++ block ++ closing ++ rest ∧
    ∀ i < block.length, ¬ OccursAt closing (block ++ closing) i

/-- `raw` follows the first colon of `line`, and what precedes it trims to `key`. -/
def FieldLine (key raw line : Text) : Prop :=
  ∃ left, line = left ++ ':' :: raw ∧ ':' ∉ left ∧ trim left = key

/-- The last line of `block` with the key `key` has `raw` behind its first colon. -/
def LastField (block key raw : Text) : Prop :=
  ∃ before line after, List.splitOn '\n' block = before ++ line :: after ∧ FieldLine key raw line ∧
    ∀ l ∈ after, ∀ r, ¬ FieldLine key r l

/-- **The block of a text is what its frame holds.**  The search for a closing is opened here
and nowhere else. -/
theorem block?_eq_some_iff {t block : Text} : block? t = some block ↔ Framed t block := by
  unfold block?
  constructor
  · intro h
    split at h
    · next hp =>
      obtain ⟨u, rfl⟩ := List.isPrefixOf_iff_prefix.1 hp
      rw [List.drop_left, before?_eq_some_iff] at h
      obtain ⟨rest, rfl, hfirst⟩ := h
      exact ⟨rest, by simp only [List.append_assoc], hfirst⟩
    · exact absurd h (Option.some_ne_none block).symm
  · rintro ⟨rest, rfl, hfirst⟩
    have ht : opening ++ block ++ closing ++ rest = opening ++ (block ++ closing ++ rest) := by
      simp only [List.append_assoc]
    rw [ht, if_pos (List.isPrefixOf_iff_prefix.2 (List.prefix_append _ _)), List.drop_left]
    exact before?_eq_some_iff.2 ⟨rest, rfl, hfirst⟩

/-- Fields are extracted exactly where a block is framed, and then they are the fields of that
block. -/
theorem extract_eq_some_iff {mode : QuoteMode} {t : Text} {m : Frontmatter} :
    extract mode t = some m ↔ ∃ block, Framed t block ∧ ofBlock mode block = m := by
  simp only [extract, Option.map_eq_some_iff, block?_eq_some_iff]

/-- What is written behind a text does not move its first closing, so the frame stays what it
was. -/
theorem Framed.append {t block : Text} (h : Framed t block) (s : Text) :
    Framed (t ++ s) block := by
  obtain ⟨rest, rfl, hfirst⟩ := h
  exact ⟨rest ++ s, by simp only [List.append_assoc], hfirst⟩

/-- **What is behind the block has no say in the fields.**  So a body may hold anything, dashes
included. -/
theorem extract_append {mode : QuoteMode} {t : Text} {m : Frontmatter}
    (h : extract mode t = some m) (s : Text) : extract mode (t ++ s) = some m := by
  obtain ⟨block, hframed, hm⟩ := extract_eq_some_iff.1 h
  exact extract_eq_some_iff.2 ⟨block, hframed.append s, hm⟩

/-! ### One line -/

/-- A line gives the field that stands at its two sides of the first colon, both trimmed. -/
theorem field?_eq_some_iff {mode : QuoteMode} {line key value : Text} :
    field? mode line = some (key, value) ↔
      ∃ raw, FieldLine key raw line ∧ mode.value (trim raw) = value := by
  unfold field? FieldLine
  simp only [Option.map_eq_some_iff, Prod.exists, splitFirst_eq_some_iff, Prod.mk.injEq]
  constructor
  · rintro ⟨left, raw, ⟨hline, hleft⟩, hkey, hvalue⟩
    exact ⟨raw, ⟨left, hline, hleft, hkey⟩, hvalue⟩
  · rintro ⟨raw, ⟨left, hline, hleft, hkey⟩, hvalue⟩
    exact ⟨left, raw, ⟨hline, hleft⟩, hkey, hvalue⟩

/-- What stands in front of the first colon is the key, what follows it the value, further
colons included. -/
theorem field?_append_colon {mode : QuoteMode} {left : Text} (h : ':' ∉ left) (raw : Text) :
    field? mode (left ++ ':' :: raw) = some (trim left, mode.value (trim raw)) :=
  field?_eq_some_iff.2 ⟨raw, ⟨left, rfl, h, rfl⟩, rfl⟩

theorem field?_nil (mode : QuoteMode) : field? mode [] = none := rfl

/-- A carriage return at the end of a line belongs neither to the key nor to the
value: it is not the colon, and behind the colon it is a blank. -/
theorem field?_append_return (mode : QuoteMode) (line : Text) :
    field? mode (line ++ ['\r']) = field? mode line := by
  unfold field?
  cases h : splitFirst ':' line with
  | none =>
    have hmem : ':' ∉ line ++ ['\r'] := by
      rw [List.mem_append, not_or]
      exact ⟨splitFirst_eq_none_iff.1 h, by decide⟩
    rw [splitFirst_eq_none_iff.2 hmem]
  | some f =>
    obtain ⟨left, raw⟩ := f
    obtain ⟨rfl, hleft⟩ := splitFirst_eq_some_iff.1 h
    have hsplit : splitFirst ':' (left ++ ':' :: raw ++ ['\r']) = some (left, raw ++ ['\r']) :=
      splitFirst_eq_some_iff.2 ⟨by simp, hleft⟩
    rw [hsplit]
    simp only [Option.map_some, trim_append_return]

/-- A return at the end of a line has no say, since values are trimmed. -/
theorem field?_dropReturn (mode : QuoteMode) (line : Text) :
    field? mode (dropReturn line) = field? mode line := by
  unfold dropReturn
  split
  · next h =>
    obtain ⟨l, rfl⟩ := List.getLast?_eq_some_iff.1 h
    rw [List.dropLast_concat, field?_append_return]
  · rfl

/-- **Only the newlines of a block matter to its fields.**  Stripped newlines give empty lines,
which hold no field, and a dropped return is trimmed from the value anyway. -/
theorem ofBlock_eq (mode : QuoteMode) (block : Text) :
    ofBlock mode block = ofList ((List.splitOn '\n' block).filterMap (field? mode)) := by
  rw [ofBlock, filterMap_lines (field?_nil mode) (field?_dropReturn mode),
    filterMap_splitOn_strip (field?_nil mode)]

/-! ### The last of several fields -/

/-- Writes under other keys leave a value alone, however many there are. -/
theorem get?_foldl_insert_of_ne {fields : List (Text × Text)} {key : Text}
    (h : ∀ f ∈ fields, f.1 ≠ key) (m : Frontmatter) :
    (fields.foldl (fun m f => m.insert f.1 f.2) m).get? key = m.get? key := by
  induction fields generalizing m with
  | nil => rfl
  | cons f fields ih =>
    obtain ⟨hf, hfields⟩ := List.forall_mem_cons.1 h
    rw [List.foldl_cons, ih hfields, get?_insert, if_neg (Ne.symm hf)]

/-- The last field with a key is the one that counts: it overwrites what stood there, and
nothing behind it does. -/
theorem get?_ofList_of_last {before after : List (Text × Text)} {key value : Text}
    (h : ∀ f ∈ after, f.1 ≠ key) :
    (ofList (before ++ (key, value) :: after)).get? key = some value := by
  rw [ofList, List.foldl_append, List.foldl_cons, get?_foldl_insert_of_ne h, get?_insert,
    if_pos rfl]

/-- A key that occurs has a last occurrence, with no field of that key behind it. -/
theorem exists_last_field {fields : List (Text × Text)} {key : Text}
    (h : ∃ f ∈ fields, f.1 = key) :
    ∃ before value after, fields = before ++ (key, value) :: after ∧ ∀ f ∈ after, f.1 ≠ key := by
  induction fields with
  | nil =>
    obtain ⟨f, hf, -⟩ := h
    exact absurd hf List.not_mem_nil
  | cons g fields ih =>
    by_cases hlater : ∃ f ∈ fields, f.1 = key
    · obtain ⟨before, value, after, rfl, hafter⟩ := ih hlater
      exact ⟨g :: before, value, after, rfl, hafter⟩
    · obtain ⟨f, hf, rfl⟩ := h
      rcases List.mem_cons.1 hf with rfl | hf
      · exact ⟨[], f.2, fields, rfl, fun g hg hk => hlater ⟨g, hg, hk⟩⟩
      · exact absurd ⟨f, hf, rfl⟩ hlater

/-- **Of several fields with one key the last holds,** and a key that no field has is not found.
-/
theorem get?_ofList_eq_some_iff {fields : List (Text × Text)} {key value : Text} :
    (ofList fields).get? key = some value ↔
      ∃ before after, fields = before ++ (key, value) :: after ∧ ∀ f ∈ after, f.1 ≠ key := by
  constructor
  · intro h
    by_cases hkey : ∃ f ∈ fields, f.1 = key
    · obtain ⟨before, v, after, rfl, hafter⟩ := exists_last_field hkey
      rw [get?_ofList_of_last hafter, Option.some.injEq] at h
      exact ⟨before, after, h ▸ rfl, hafter⟩
    · have hnone : (ofList fields).get? key = none :=
        get?_foldl_insert_of_ne (fun f hf hk => hkey ⟨f, hf, hk⟩) empty
      rw [hnone] at h
      exact absurd h (Option.some_ne_none value).symm
  · rintro ⟨before, after, rfl, hafter⟩
    exact get?_ofList_of_last hafter

/-- **A look-up in a block answers with the last line that has the key.**  This is what the
proofs about extraction use; none of them walks the lines again. -/
theorem get?_ofBlock_eq_some_iff {mode : QuoteMode} {block key value : Text} :
    (ofBlock mode block).get? key = some value ↔
      ∃ raw, LastField block key raw ∧ mode.value (trim raw) = value := by
  rw [ofBlock_eq, get?_ofList_eq_some_iff]
  constructor
  · rintro ⟨before, after, hfields, hafter⟩
    obtain ⟨ps, qs, hpieces, -, hqs⟩ := List.filterMap_eq_append_iff.1 hfields
    obtain ⟨skipped, line, rest, rfl, -, hline, rfl⟩ := List.filterMap_eq_cons_iff.1 hqs
    obtain ⟨raw, hraw, hvalue⟩ := field?_eq_some_iff.1 hline
    refine ⟨raw, ⟨ps ++ skipped, line, rest, ?_, hraw, fun l hl r hr => ?_⟩, hvalue⟩
    · rw [hpieces, List.append_assoc]
    · have hf : field? mode l = some (key, mode.value (trim r)) :=
        field?_eq_some_iff.2 ⟨r, hr, rfl⟩
      exact hafter _ (List.mem_filterMap.2 ⟨l, hl, hf⟩) rfl
  · rintro ⟨raw, ⟨before, line, after, hpieces, hline, hafter⟩, hvalue⟩
    have hf := field?_eq_some_iff.2 ⟨raw, hline, hvalue⟩
    refine ⟨before.filterMap (field? mode), after.filterMap (field? mode), ?_, ?_⟩
    · rw [hpieces, List.filterMap_append, List.filterMap_cons_some hf]
    · rintro ⟨k, v⟩ hmem rfl
      obtain ⟨l, hl, hlf⟩ := List.mem_filterMap.1 hmem
      obtain ⟨r, hr, -⟩ := field?_eq_some_iff.1 hlf
      exact hafter l hl r hr

/-! ### Checks of one value -/

variable {α : Type} {m : Frontmatter} {key value : Text}

/-- An empty value counts as missing where a value is required. -/
theorem nonEmpty?_eq_some_iff :
    m.nonEmpty? key = some value ↔ m.get? key = some value ∧ value ≠ [] := by
  rw [nonEmpty?, Option.filter_eq_some_iff]
  simp

/-- A check that asks for a value is silent where there is one, not empty, that it
has nothing against. -/
theorem required_eq_none_iff {missing : α} {checkValue : Text → Option α} :
    (match m.nonEmpty? key with
      | none => some missing
      | some value => checkValue value) = none ↔
      ∃ value, m.get? key = some value ∧ value ≠ [] ∧ checkValue value = none := by
  constructor
  · intro h
    split at h
    · exact absurd h (Option.some_ne_none _)
    · next value hvalue =>
      obtain ⟨hget, hne⟩ := nonEmpty?_eq_some_iff.1 hvalue
      exact ⟨value, hget, hne, h⟩
  · rintro ⟨value, hget, hne, h⟩
    rw [nonEmpty?_eq_some_iff.2 ⟨hget, hne⟩]
    exact h

/-- A check that asks for a name is silent where there is one that has the
pattern; such a name is not empty. -/
theorem requiredName_eq_none_iff {missing : α} {invalid : Text → α} :
    (match m.nonEmpty? key with
      | none => some missing
      | some name => if isValidName name then none else some (invalid name)) = none ↔
      ∃ name, m.get? key = some name ∧ NamePattern name := by
  refine (required_eq_none_iff (m := m)).trans (exists_congr fun name => ?_)
  rw [← isValidName_iff_namePattern]
  constructor
  · rintro ⟨hget, -, h⟩
    split at h
    · next hvalid => exact ⟨hget, hvalid⟩
    · exact absurd h (Option.some_ne_none _)
  · rintro ⟨hget, hvalid⟩
    exact ⟨hget, (isValidName_iff_namePattern.1 hvalid).ne_nil, if_pos hvalid⟩

/-- A check that only asks for a value is silent where there is one, not empty.  Prompts and
skills ask for a description in this way. -/
theorem present_eq_none_iff {missing : α} :
    (match m.nonEmpty? key with
      | none => some missing
      | some _ => none) = none ↔
      ∃ value, m.get? key = some value ∧ value ≠ [] := by
  refine (required_eq_none_iff (m := m)).trans (exists_congr fun value => ?_)
  rw [and_iff_left rfl]

end Frontmatter

end DocLint
