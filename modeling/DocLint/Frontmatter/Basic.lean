/-
# Frontmatter

`Frontmatter` with `get`, `non_empty`, `len` and `is_empty`, SPEC_FULL.md §3 and §10.1.

A frontmatter is a finite mapping of texts to texts.  Its fields stand in
ascending order of their keys, code point by code point, so that a mapping has
one representation: two frontmatters with the same look-ups are equal
(`ext_get?`).
-/

import DocLint.Association
import DocLint.Text

namespace DocLint

/-- A finite mapping of texts to texts, its fields in ascending order of keys. -/
structure Frontmatter where
  fields : List (Text × Text)
  sorted : fields.Pairwise fun a b => a.1 < b.1
deriving DecidableEq

namespace Frontmatter

/-- `fields` with `key` set to `value`, at its place in the order. -/
def insertField (key value : Text) : List (Text × Text) → List (Text × Text)
  | [] => [(key, value)]
  | f :: fields =>
    if key < f.1 then (key, value) :: f :: fields
    else if key = f.1 then (key, value) :: fields
    else f :: insertField key value fields

/-- Inserting a field brings in no key but its own, so the others keep their place in the order.
-/
theorem fst_of_mem_insertField {key value : Text} {fields : List (Text × Text)} {f : Text × Text}
    (h : f ∈ insertField key value fields) : f.1 = key ∨ f ∈ fields := by
  induction fields with
  | nil => simp_all [insertField]
  | cons g fields ih =>
    unfold insertField at h
    split at h
    · rcases List.mem_cons.1 h with rfl | h
      · exact .inl rfl
      · exact .inr h
    · split at h
      · rcases List.mem_cons.1 h with rfl | h
        · exact .inl rfl
        · exact .inr (List.mem_cons_of_mem _ h)
      · rcases List.mem_cons.1 h with rfl | h
        · exact .inr List.mem_cons_self
        · exact (ih h).imp id (List.mem_cons_of_mem _)

/-- Setting a field keeps the order of the keys, so a mapping goes on having one representation.
-/
theorem sorted_insertField (key value : Text) {fields : List (Text × Text)}
    (h : fields.Pairwise fun a b => a.1 < b.1) :
    (insertField key value fields).Pairwise fun a b => a.1 < b.1 := by
  induction fields with
  | nil => simp [insertField]
  | cons g fields ih =>
    obtain ⟨hg, hf⟩ := List.pairwise_cons.1 h
    unfold insertField
    split
    · next hlt =>
      refine List.pairwise_cons.2 ⟨fun f hf' => ?_, h⟩
      rcases List.mem_cons.1 hf' with rfl | hf'
      · exact hlt
      · exact List.lt_trans hlt (hg f hf')
    · split
      · next heq => exact List.pairwise_cons.2 ⟨fun f hf' => heq ▸ hg f hf', hf⟩
      · next hlt hne =>
        refine List.pairwise_cons.2 ⟨fun f hf' => ?_, ih hf⟩
        rcases fst_of_mem_insertField hf' with hk | hf'
        · rw [hk]
          exact (List.le_iff_lt_or_eq.1 (List.not_lt.1 hlt)).resolve_right fun e => hne e.symm
        · exact hg f hf'

/-- The mapping without fields. -/
def empty : Frontmatter := ⟨[], .nil⟩

/-- The mapping with `key` set to `value`. -/
def insert (m : Frontmatter) (key value : Text) : Frontmatter :=
  ⟨insertField key value m.fields, sorted_insertField key value m.sorted⟩

/-- The mapping that `fields` build from left to right: of two fields with one
key the later holds. -/
def ofList (fields : List (Text × Text)) : Frontmatter :=
  fields.foldl (fun m f => m.insert f.1 f.2) empty

/-- The value of `key`. -/
def get? (m : Frontmatter) (key : Text) : Option Text := m.fields.lookup key

/-- The value of `key`, where it is there and not the empty text. -/
def nonEmpty? (m : Frontmatter) (key : Text) : Option Text := (m.get? key).filter (· ≠ [])

/-- The number of keys. -/
def size (m : Frontmatter) : Nat := m.fields.length

/-- **A field that is inserted is found under its key,** and every other key is found as before.
-/
theorem lookup_insertField (key value other : Text) (fields : List (Text × Text)) :
    (insertField key value fields).lookup other =
      if other = key then some value else fields.lookup other := by
  induction fields with
  | nil => simp [insertField, Association.lookup_cons other]
  | cons g fields ih =>
    unfold insertField
    split
    · simp only [Association.lookup_cons]
    · split
      · next heq => simp only [Association.lookup_cons, ← heq]; split <;> rfl
      · next hne =>
        by_cases hg : other = g.1
        · have hk : other ≠ key := fun e => hne (e.symm.trans hg)
          simp only [Association.lookup_cons, hg, if_true, if_neg (hg ▸ hk)]
        · simp only [Association.lookup_cons, hg, if_false, ih]

/-- **A look-up after a write** sees the value written under its key, and under
every other key what was there before. -/
theorem get?_insert (m : Frontmatter) (key value other : Text) :
    (m.insert key value).get? other = if other = key then some value else m.get? other :=
  lookup_insertField key value other m.fields

/-- Ascending keys are different keys, so all that is known of association lists without double
keys holds here. -/
theorem distinct (m : Frontmatter) : Association.Distinct m.fields :=
  List.pairwise_map.2 <| m.sorted.imp fun {a b} hlt (heq : a.1 = b.1) =>
    List.lt_irrefl b.1 (heq ▸ hlt)

/-- **A look-up finds exactly the fields,** since no key stands twice. -/
theorem get?_eq_some_iff {m : Frontmatter} {key value : Text} :
    m.get? key = some value ↔ (key, value) ∈ m.fields :=
  m.distinct.lookup_eq_some_iff

/-- Fields in the order of their keys are known from which they are, so equal mappings have
equal lists. -/
theorem ext_of_sorted {a b : List (Text × Text)}
    (ha : a.Pairwise fun x y => x.1 < y.1) (hb : b.Pairwise fun x y => x.1 < y.1)
    (h : ∀ f, f ∈ a ↔ f ∈ b) : a = b := by
  induction a generalizing b with
  | nil =>
    cases b with
    | nil => rfl
    | cons g b => exact absurd ((h g).2 List.mem_cons_self) (by simp)
  | cons f a ih =>
    cases b with
    | nil => exact absurd ((h f).1 List.mem_cons_self) (by simp)
    | cons g b =>
      obtain ⟨hfa, ha'⟩ := List.pairwise_cons.1 ha
      obtain ⟨hgb, hb'⟩ := List.pairwise_cons.1 hb
      have hfg : f = g := by
        rcases List.mem_cons.1 ((h f).1 List.mem_cons_self) with e | hf
        · exact e
        · rcases List.mem_cons.1 ((h g).2 List.mem_cons_self) with e | hg
          · exact e.symm
          · exact absurd (List.lt_trans (hfa g hg) (hgb f hf)) (List.lt_irrefl _)
      subst hfg
      congr 1
      refine ih ha' hb' fun x => ⟨fun hx => ?_, fun hx => ?_⟩
      · rcases List.mem_cons.1 ((h x).1 (List.mem_cons_of_mem _ hx)) with rfl | hx'
        · exact absurd (hfa _ hx) (List.lt_irrefl _)
        · exact hx'
      · rcases List.mem_cons.1 ((h x).2 (List.mem_cons_of_mem _ hx)) with rfl | hx'
        · exact absurd (hgb _ hx) (List.lt_irrefl _)
        · exact hx'

/-- **Equal look-ups make equal mappings.**  The fields are the same, and their order is that of
the keys. -/
theorem ext_get? {m n : Frontmatter} (h : ∀ key, m.get? key = n.get? key) : m = n := by
  have hf : m.fields = n.fields := ext_of_sorted m.sorted n.sorted fun ⟨k, v⟩ => by
    rw [← get?_eq_some_iff, ← get?_eq_some_iff, h]
  cases m
  cases n
  cases hf
  rfl

end Frontmatter

end DocLint
