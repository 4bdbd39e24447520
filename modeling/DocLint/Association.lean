/-
# Association lists

The fields of a frontmatter, the keys of a TOML table, the entries of a directory and the
members of a JSON object are all lists of keys with values.  A look-up takes the first value
under its key (`List.lookup`); a write replaces it, or puts a new key last (`set`).

| key | look-up in `a = 1, b = 2` | written with `3` |
| --- | --- | --- |
| `a` | `1` | `a = 3, b = 2` |
| `c` | none | `a = 1, b = 2, c = 3` |

A list in which no key stands twice (`Distinct`) is a finite mapping: a look-up finds every
entry, wherever it stands (`Distinct.lookup_eq_some_iff`), and a write keeps it so
(`Distinct.set`).
-/

namespace DocLint

namespace Association

variable {κ ν : Type} [BEq κ] [LawfulBEq κ] [DecidableEq κ]

/-- The entries with `value` under `key`; a new key comes last. -/
def set (key : κ) (value : ν) : List (κ × ν) → List (κ × ν)
  | [] => [(key, value)]
  | e :: entries => if e.1 = key then (key, value) :: entries else e :: set key value entries

/-- No key stands twice. -/
def Distinct (entries : List (κ × ν)) : Prop := (entries.map (·.1)).Nodup

instance (entries : List (κ × ν)) : Decidable (Distinct entries) :=
  inferInstanceAs (Decidable (List.Nodup _))

variable {key : κ} {value : ν} {entries : List (κ × ν)}

omit [DecidableEq κ] in
/-- What is found stands in the list under its key, whether or not that key stands there twice.
-/
theorem mem_of_lookup (h : entries.lookup key = some value) : (key, value) ∈ entries := by
  obtain ⟨before, after, hentries, -⟩ := List.lookup_eq_some_iff.1 h
  rw [hentries]
  exact List.mem_append_right _ List.mem_cons_self

/-- A look-up takes the first entry if that has its key, and goes on behind it if not, as a step
of the walk through the list. -/
theorem lookup_cons (key : κ) (e : κ × ν) (entries : List (κ × ν)) :
    (e :: entries).lookup key = if key = e.1 then some e.2 else entries.lookup key := by
  obtain ⟨k, v⟩ := e
  by_cases h : key = k
  · simp [h]
  · simp [List.lookup_cons, beq_eq_false_iff_ne.2 h, h]

/-- **A look-up after a write** sees the value written under its key, and under every other
key what was there before. -/
theorem lookup_set (key other : κ) (value : ν) (entries : List (κ × ν)) :
    (set key value entries).lookup other =
      if other = key then some value else entries.lookup other := by
  induction entries with
  | nil => rw [set, lookup_cons]
  | cons e entries ih =>
    unfold set
    split
    · next hkey =>
      rw [lookup_cons, lookup_cons, hkey]
      split <;> rfl
    · next hkey =>
      rw [lookup_cons, lookup_cons, ih]
      by_cases hother : other = e.1
      · rw [if_pos hother, if_pos hother, if_neg (hother ▸ hkey)]
      · rw [if_neg hother, if_neg hother]

omit [DecidableEq κ] in
/-- **Where no key stands twice, a look-up finds every entry,** not only the first with its key.
-/
theorem Distinct.lookup_eq_some_iff (h : Distinct entries) :
    entries.lookup key = some value ↔ (key, value) ∈ entries := by
  refine ⟨mem_of_lookup, fun hmem => ?_⟩
  obtain ⟨before, after, rfl⟩ := List.append_of_mem hmem
  refine List.lookup_eq_some_iff.2 ⟨before, after, rfl, fun e he => ?_⟩
  have hkeys : (before.map (·.1) ++ key :: after.map (·.1)).Nodup := by simpa [Distinct] using h
  have hne : e.1 ≠ key :=
    (List.pairwise_append.1 hkeys).2.2 e.1 (List.mem_map_of_mem he) key List.mem_cons_self
  simpa using hne.symm

omit [DecidableEq κ] in
/-- Nothing is found exactly where no entry has the key, so a missing key is told by the keys
alone. -/
theorem lookup_eq_none_iff : entries.lookup key = none ↔ key ∉ entries.map (·.1) := by
  rw [List.lookup_eq_none_iff, List.mem_map]
  constructor
  · rintro h ⟨e, he, rfl⟩
    simpa using h e he
  · exact fun h e he => by simpa using fun heq : key = e.1 => h ⟨e, he, heq.symm⟩

omit [BEq κ] [LawfulBEq κ] in
/-- A write adds no entry but its own, so what holds of all entries and of the new one holds
behind it. -/
theorem mem_set {e : κ × ν} (h : e ∈ set key value entries) : e = (key, value) ∨ e ∈ entries := by
  induction entries with
  | nil => exact .inl (List.mem_singleton.1 h)
  | cons first entries ih =>
    by_cases hkey : first.1 = key
    · rw [set, if_pos hkey, List.mem_cons] at h
      exact h.imp_right (List.mem_cons_of_mem _)
    · rw [set, if_neg hkey, List.mem_cons] at h
      rcases h with rfl | h
      · exact .inr List.mem_cons_self
      · exact (ih h).imp_right (List.mem_cons_of_mem _)

omit [BEq κ] [LawfulBEq κ] in
/-- **A write doubles no key:** it replaces what is there, or comes last where nothing is. -/
theorem Distinct.set (h : Distinct entries) (key : κ) (value : ν) :
    Distinct (set key value entries) := by
  induction entries with
  | nil => exact List.nodup_cons.2 ⟨List.not_mem_nil, List.nodup_nil⟩
  | cons e entries ih =>
    obtain ⟨he, hentries⟩ := List.nodup_cons.1 h
    by_cases hkey : e.1 = key
    · rw [Association.set, if_pos hkey]
      exact List.nodup_cons.2 ⟨hkey ▸ he, hentries⟩
    · rw [Association.set, if_neg hkey]
      refine List.nodup_cons.2 ⟨fun hmem => ?_, ih hentries⟩
      obtain ⟨other, hother, heq⟩ := List.mem_map.1 hmem
      rcases mem_set hother with rfl | hother
      · exact hkey heq.symm
      · exact he (heq ▸ List.mem_map_of_mem hother)

omit [BEq κ] [LawfulBEq κ] in
/-- Of two writes under one key the later holds, and the place is that of the first, so a table
that is filled field by field is written once. -/
theorem set_set (key : κ) (value value' : ν) (entries : List (κ × ν)) :
    set key value (set key value' entries) = set key value entries := by
  induction entries with
  | nil => simp [set]
  | cons e entries ih => by_cases h : e.1 = key <;> simp [set, h, ih]

/-- A new key comes last, behind all that is there and in the order of the writes. -/
theorem set_of_lookup_eq_none (h : entries.lookup key = none) (value : ν) :
    set key value entries = entries ++ [(key, value)] := by
  rw [lookup_eq_none_iff] at h
  induction entries with
  | nil => rfl
  | cons e entries ih =>
    rw [List.map_cons, List.mem_cons, not_or] at h
    rw [set, if_neg (Ne.symm h.1), ih h.2, List.cons_append]

end Association

end DocLint
