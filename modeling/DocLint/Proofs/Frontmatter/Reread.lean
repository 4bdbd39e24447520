/-
# Reading again what was read

SPEC_FULL.md §8: `extract` on the block of what was extracted.

A mapping that was read from a text is plain: `toBlock` can write each of its
fields on a line of its own.  Still it need not come back.  A key may begin with
the dashes that close a block, since a line of the text may be indented or follow
the opening, and `toBlock` writes every key at the start of a line.

| text | read | read again |
| --- | --- | --- |
| `---⏎name: a⏎---` | `name` | `name` |
| `---⏎ ---a: b⏎name: c⏎---` | `---a`, `name` | nothing |
| `--- ---a: b⏎ +: c⏎---` | `+`, `---a` | `+` |

Keys are written in ascending order, and the first of them with dashes closes the
block.  So what comes back is what stands before it (`extract_toBlock_of_isPlain`),
and a mapping comes back whole exactly where no key has dashes.
-/

import DocLint.Proofs.Frontmatter.RoundTrip
import Mathlib.Data.List.TakeWhile

namespace DocLint

namespace Frontmatter

/-- The fields in front of the first one whose key begins with the dashes that
close a block. -/
def beforeDashes (fields : List (Text × Text)) : List (Text × Text) :=
  fields.takeWhile fun f => !opening.isPrefixOf f.1

/-- No field in front of the first key with dashes has such a key. -/
theorem no_dashes_of_mem_beforeDashes {fields : List (Text × Text)} {f : Text × Text}
    (h : f ∈ beforeDashes fields) : ¬ opening <+: f.1 := by
  have hall : (beforeDashes fields).all fun f => !opening.isPrefixOf f.1 := List.all_takeWhile
  have hf : (!opening.isPrefixOf f.1) = true := List.all_eq_true.1 hall f h
  intro hdash
  rw [List.isPrefixOf_iff_prefix.2 hdash] at hf
  exact absurd hf (by decide)

theorem mem_of_mem_beforeDashes {fields : List (Text × Text)} {f : Text × Text}
    (h : f ∈ beforeDashes fields) : f ∈ fields :=
  (List.takeWhile_prefix _).subset h

/-- Where no key begins with dashes all fields are in front. -/
theorem beforeDashes_eq_self {fields : List (Text × Text)} (h : ∀ f ∈ fields, ¬ opening <+: f.1) :
    beforeDashes fields = fields := by
  refine List.takeWhile_eq_self_iff.2 fun f hf => ?_
  have hdash : opening.isPrefixOf f.1 = false := by
    rw [← Bool.not_eq_true, List.isPrefixOf_iff_prefix]
    exact h f hf
  rw [hdash]
  rfl

/-- Whatever closes the written block, the fields before the dashes stand in front of it: the
closing is its own or the newline and dashes of the first bad key. -/
theorem exists_toBlock_eq (m : Frontmatter) :
    ∃ rest, toBlock m = opening ++ (fieldLines (beforeDashes m.fields) ++ (closing ++ rest)) := by
  have hfields : m.fields = beforeDashes m.fields ++
      m.fields.dropWhile fun f => !opening.isPrefixOf f.1 := List.takeWhile_append_dropWhile.symm
  have hwritten := toBlock_eq m
  cases hlater : m.fields.dropWhile fun f => !opening.isPrefixOf f.1 with
  | nil =>
    rw [hlater, List.append_nil] at hfields
    exact ⟨['\n'], hwritten.trans (by rw [← hfields])⟩
  | cons bad later =>
    have hbad : opening.isPrefixOf bad.1 = true := by
      have hhead := List.head?_dropWhile_not (fun f => !opening.isPrefixOf f.1) m.fields
      rw [hlater] at hhead
      simpa using hhead
    obtain ⟨u, hu⟩ := List.isPrefixOf_iff_prefix.1 hbad
    refine ⟨u ++ ':' :: ' ' :: bad.2 ++ fieldLines later ++ closing ++ ['\n'], ?_⟩
    rw [hlater] at hfields
    conv at hwritten => rhs; rw [hfields]
    rw [hwritten, fieldLines_append, fieldLines_cons, fieldText, ← hu]
    simp [opening, closing]

/-- **What comes back** of plain fields is what stands before the dashes.  The key with dashes
closes the block in front of itself. -/
theorem extract_toBlock_of_isPlain {m : Frontmatter} (h : ∀ f ∈ m.fields, IsPlain f) :
    extract .preserve (toBlock m) = some (ofList (beforeDashes m.fields)) := by
  obtain ⟨rest, hrest⟩ := exists_toBlock_eq m
  have hgood : ∀ f ∈ beforeDashes m.fields, IsPlain f ∧ ¬ opening <+: f.1 := by
    intro f hf
    exact ⟨h f (mem_of_mem_beforeDashes hf), no_dashes_of_mem_beforeDashes hf⟩
  rw [hrest, extract_fieldLines hgood]

/-- Nothing is lost exactly where no key has dashes in front: what is cut off has a key that is
not found any more. -/
theorem ofList_beforeDashes_eq_iff {m : Frontmatter} :
    ofList (beforeDashes m.fields) = m ↔ ∀ f ∈ m.fields, ¬ opening <+: f.1 := by
  constructor
  · intro heq f hf
    have hvalue : (ofList (beforeDashes m.fields)).get? f.1 = some f.2 := by
      rw [heq]
      exact get?_eq_some_iff.2 hf
    obtain ⟨before, after, hsplit, -⟩ := get?_ofList_eq_some_iff.1 hvalue
    have hmem : f ∈ beforeDashes m.fields := by
      rw [hsplit]
      exact List.mem_append_right before List.mem_cons_self
    exact no_dashes_of_mem_beforeDashes hmem
  · intro h
    rw [beforeDashes_eq_self h, ofList_fields]

/-- **Reading again** what was read from a text gives the fields before the first
key with dashes, and hence the same mapping exactly where there is no such key. -/
theorem extract_toBlock_of_extract {t : Text} {m : Frontmatter}
    (h : extract .preserve t = some m) :
    extract .preserve (toBlock m) = some (ofList (beforeDashes m.fields)) ∧
      (extract .preserve (toBlock m) = some m ↔ ∀ f ∈ m.fields, ¬ opening <+: f.1) := by
  have hback := extract_toBlock_of_isPlain (isPlain_of_extract h)
  refine ⟨hback, ?_⟩
  rw [hback, Option.some.injEq, ofList_beforeDashes_eq_iff]

/-- An indented line gives a key with dashes; `+` stands before it and comes back. -/
theorem extract_toBlock_of_indented :
    extract .preserve "--- ---a: b\n +: c\n---\n" = some (ofList [("+", "c"), ("---a", "b")]) ∧
      extract .preserve (toBlock (ofList [("+", "c"), ("---a", "b")])) =
        some (ofList (beforeDashes (ofList [("+", "c"), ("---a", "b")]).fields)) ∧
      (extract .preserve (toBlock (ofList [("+", "c"), ("---a", "b")])) =
          some (ofList [("+", "c"), ("---a", "b")]) ↔
        ∀ f ∈ (ofList [("+", "c"), ("---a", "b")]).fields, ¬ opening <+: f.1) := by
  have hread :
      extract .preserve "--- ---a: b\n +: c\n---\n" = some (ofList [("+", "c"), ("---a", "b")]) := by
    decide +kernel
  exact ⟨hread, extract_toBlock_of_extract hread⟩

/-- **A mapping that was read need not come back.**  From the indented line ` ---a: b` the key
`---a` is read, and written at the start of a line it closes the block. -/
theorem not_forall_extract_toBlock :
    ¬ ∀ (t : Text) (m : Frontmatter), extract .preserve t = some m →
      extract .preserve (toBlock m) = some m := by
  intro h
  have hread : extract .preserve "--- ---a: b\n---\n" = some (ofList [("---a", "b")]) := by
    decide +kernel
  have hlost : extract .preserve (toBlock (ofList [("---a", "b")])) = some empty := by
    decide +kernel
  have hback := h _ _ hread
  rw [hlost] at hback
  exact absurd hback (by decide +kernel)

end Frontmatter

end DocLint
