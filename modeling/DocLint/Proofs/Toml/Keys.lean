/-
# No key stands twice

What adds to a table writes under a key that is not there yet, or replaces a table by one
that has more in it.

| step | what it writes |
| --- | --- |
| `a.b = v` | `v`, in the table `a` or in a new one |
| `[a.b]` | the table `b` with the fields it has, or an empty one |
| `[[a.b]]` | an array of tables |
| a member in braces | what a dotted key writes |

So a table stays tidy, and all tables below it (`Fields.Tidy`), as an inline table is read and
as the lines of a document are added up (`tidy_of_parse?`).  In a tidy table a look-up finds
every field, wherever it stands (`Association.Distinct.lookup_eq_some_iff`).
-/

import DocLint.Toml.Document

namespace DocLint

namespace Toml

/-- The fields of a value that is a table. -/
def Value.members : Value → Fields
  | .table _ fields => fields
  | _ => []

namespace Fields

/-- No key stands twice. -/
abbrev Distinct (fields : Fields) : Prop := Association.Distinct fields

variable {fields changed : Fields} {key : Text} {value : Value}

/-! ### The tables below -/

/-- No key stands twice, here or in a table that keys lead to.  What stands in an array is not
reached by keys. -/
inductive Tidy : Fields → Prop
  | intro {fields : Fields} (distinct : fields.Distinct)
      (below : ∀ f ∈ fields, Tidy f.2.members) : Tidy fields

/-- In a tidy table no key is given twice, so its fields are a finite mapping and a look-up
finds each of them. -/
theorem Tidy.distinct : fields.Tidy → fields.Distinct
  | .intro distinct _ => distinct

theorem tidy_nil : Tidy [] := .intro List.nodup_nil fun _ hf => absurd hf List.not_mem_nil

/-- The tables inside a tidy table are tidy, at whatever key, and so is every table that a path
of keys leads to. -/
theorem Tidy.of_get? {origin : TableOrigin} {below : Fields} (h : fields.Tidy)
    (hget : fields.get? key = some (.table origin below)) : below.Tidy := by
  cases h with
  | intro distinct below => exact below _ (distinct.lookup_eq_some_iff.1 hget)

/-- **A write of a tidy value leaves a table tidy.**  It doubles no key, and the tables below
stay or are the new ones. -/
theorem Tidy.set (h : fields.Tidy) (key : Text) (hvalue : value.members.Tidy) :
    (Fields.set key value fields).Tidy := by
  cases h with
  | intro distinct below =>
    refine .intro (distinct.set key value) fun f hf => ?_
    rcases Association.mem_set hf with rfl | hf
    · exact hvalue
    · exact below f hf

/-- What is changed below a key is written under that key, so a change below keeps the whole
tidy. -/
theorem Tidy.set_of_map {below : Option Fields} {table : Fields → Value} (hfields : fields.Tidy)
    (h : below.map (fun below => fields.set key (table below)) = some changed)
    (htable : ∀ fields', below = some fields' → (table fields').members.Tidy) : changed.Tidy := by
  obtain ⟨fields', hbelow, rfl⟩ := Option.map_eq_some_iff.1 h
  exact hfields.set key (htable fields' hbelow)

/-- **A dotted key leaves a table tidy.**  By induction on its parts, of which each writes below
the one in front. -/
theorem Tidy.assign {path : List Text} (hfields : fields.Tidy) (hvalue : value.members.Tidy)
    (h : assign value path fields = some changed) : changed.Tidy := by
  fun_induction Fields.assign value path fields generalizing changed with
  | case1 => cases h
  | case2 key fields hmissing => exact Option.some.inj h ▸ hfields.set key hvalue
  | case3 => cases h
  | case4 key rest fields hrest hmissing ih =>
    exact hfields.set_of_map h fun _ hbelow => ih tidy_nil hbelow
  | case5 key rest fields hrest below hget ih =>
    exact hfields.set_of_map h fun _ hbelow => ih (hfields.of_get? hget) hbelow
  | case6 => cases h
  | case7 key rest fields hrest below hget hlength ih =>
    exact hfields.set_of_map h fun _ hbelow => ih (hfields.of_get? hget) hbelow
  | case8 => cases h
  -- The array stays an array, whatever its latest table becomes.
  | case9 => exact hfields.set_of_map h fun _ _ => tidy_nil
  | case10 => cases h

/-- A header `[key]` keeps tables tidy: it opens the table that is there, with the fields it
has, or adds an empty one. -/
theorem Tidy.openTable (hfields : fields.Tidy) (h : openTable key fields = some changed) :
    changed.Tidy := by
  unfold Fields.openTable at h
  split at h
  case h_1 => exact Option.some.inj h ▸ hfields.set key tidy_nil
  case h_2 below hget => exact Option.some.inj h ▸ hfields.set key (hfields.of_get? hget)
  case h_3 => cases h

/-- A header `[[key]]` keeps tables tidy: the new table begins empty, and no key leads into the
array that it joins. -/
theorem Tidy.appendTable (hfields : fields.Tidy) (h : appendTable key fields = some changed) :
    changed.Tidy := by
  unfold Fields.appendTable at h
  split at h
  case h_1 => exact Option.some.inj h ▸ hfields.set key tidy_nil
  case h_2 => exact Option.some.inj h ▸ hfields.set key tidy_nil
  case h_3 => cases h

/-- **A change below a path leaves a table tidy,** if it leaves every table tidy where it is
made. -/
theorem Tidy.within {change : Fields → Option Fields}
    (hchange : ∀ {fields changed : Fields}, fields.Tidy → change fields = some changed →
      changed.Tidy) {path : List Text} (hfields : fields.Tidy)
    (h : within change path fields = some changed) : changed.Tidy := by
  fun_induction Fields.within change path fields generalizing changed with
  | case1 => exact hchange hfields h
  | case2 key path fields hmissing ih =>
    exact hfields.set_of_map h fun _ hbelow => ih tidy_nil hbelow
  | case3 => cases h
  | case4 key path fields origin below horigin hget ih =>
    exact hfields.set_of_map h fun _ hbelow => ih (hfields.of_get? hget) hbelow
  | case5 => exact hfields.set_of_map h fun _ _ => tidy_nil
  | case6 => cases h

end Fields

/-! ### Lines -/

/-- The value that a line writes, if it writes one, is tidy. -/
def Line.Tidy : Line → Prop
  | .assign _ value => value.members.Tidy
  | _ => True

/-- **A line leaves the table of the document tidy,** whether it assigns or opens a table. -/
theorem Draft.tidy_add {d d' : Draft} {line : Line} (hd : d.top.Tidy) (hline : line.Tidy)
    (h : d.add line = some d') : d'.top.Tidy := by
  cases line with
  | assign key value =>
    obtain ⟨top, htop, rfl⟩ := Option.map_eq_some_iff.1 h
    exact hd.within (fun hfields => hfields.assign hline) htop
  | header key =>
    obtain ⟨last, -, h⟩ := Option.bind_eq_some_iff.1 h
    obtain ⟨top, htop, rfl⟩ := Option.map_eq_some_iff.1 h
    exact hd.within Fields.Tidy.openTable htop
  | arrayHeader key =>
    obtain ⟨last, -, h⟩ := Option.bind_eq_some_iff.1 h
    obtain ⟨top, htop, rfl⟩ := Option.map_eq_some_iff.1 h
    exact hd.within Fields.Tidy.appendTable htop

/-- **Lines leave the table of the document tidy,** by induction on them: it begins empty, and
each line adds to what the ones in front of it left. -/
theorem tidy_of_foldlM {lines : List Line} {d d' : Draft} (hd : d.top.Tidy)
    (hlines : ∀ line ∈ lines, line.Tidy) (h : lines.foldlM Draft.add d = some d') :
    d'.top.Tidy := by
  induction lines generalizing d with
  | nil => exact Option.some.inj h ▸ hd
  | cons line lines ih =>
    rw [List.foldlM_cons] at h
    obtain ⟨next, hnext, hrest⟩ := Option.bind_eq_some_iff.1 h
    obtain ⟨hline, hlines⟩ := List.forall_mem_cons.1 hlines
    exact ih (Draft.tidy_add hd hline hnext) hlines hrest

/-! ### What is read -/

namespace Number

/-- A number that is read from digits holds no table, be it an integer or too large to be one.
-/
theorem members_ofDigits (t : Text) (negative : Bool) (base : Nat) (digits : Text) :
    (ofDigits t negative base digits).members = [] := by
  unfold ofDigits
  generalize (if digits = [] then none else _) = magnitude?
  cases magnitude? with
  | none => rfl
  | some n =>
    dsimp only
    rw [apply_ite Value.members]
    exact ite_self []

/-- An integer holds no table, whatever its base and its sign, so a line that writes one is
tidy. -/
theorem members_of_integer? {t : Text} {value : Value} (h : integer? t = some value) :
    value.members = [] := by
  unfold integer? at h
  split at h
  · obtain ⟨-, h⟩ := Option.ite_none_right_eq_some.1 h
    exact Option.some.inj h ▸ members_ofDigits ..
  · obtain ⟨-, h⟩ := Option.ite_none_right_eq_some.1 h
    exact Option.some.inj h ▸ members_ofDigits ..

theorem members_of_float? {t : Text} {value : Value} (h : float? t = some value) :
    value.members = [] := by
  have hfinite {P : Prop} [Decidable P]
      (h : (if P then some (Value.float t) else some (.invalid t)) = some value) :
      value.members = [] := by
    split at h <;> exact Option.some.inj h ▸ rfl
  rcases hsign : splitSign t with ⟨negative, body⟩
  simp only [float?, hsign] at h
  split at h
  · exact Option.some.inj h ▸ rfl
  · simp only [decimalFloat?, Option.bind_eq_bind, Option.bind_eq_some_iff,
      Option.ite_none_left_eq_some] at h
    obtain ⟨whole, -, fraction, -, exponent, -, -, h⟩ := h
    exact hfinite h

end Number

namespace Parse

/-- A bare word is a value without tables in it, whatever it stands for. -/
theorem members_of_ofWord? {t : Text} {value : Value} (h : ofWord? t = some value) :
    value.members = [] := by
  unfold ofWord? at h
  split at h
  · exact Option.some.inj h ▸ rfl
  split at h
  · exact Option.some.inj h ▸ rfl
  split at h
  case h_1 hinteger => exact Option.some.inj h ▸ Number.members_of_integer? hinteger
  split at h
  · exact Option.some.inj h ▸ rfl
  · exact Number.members_of_float? h

section Read

variable {fuel depth : Nat} {ts rest : List Token} {before fields : Fields} {value : Value}

/-- A value is tidy if the inline table is that it may be.  With the lemma on members this is
one step of an induction on the fuel of both readers. -/
theorem tidy_value?_succ
    (hmembers : ∀ {depth ts fields rest}, members? fuel depth [] ts = some (fields, rest) →
      fields.Tidy)
    (h : value? (fuel + 1) depth ts = some (value, rest)) : value.members.Tidy := by
  unfold value? at h
  split at h
  case h_1 | h_2 | h_5 | h_7 => cases h
  case h_3 | h_4 => cases h; exact Fields.tidy_nil
  case h_6 =>
    obtain ⟨items, -, hvalue⟩ := Option.map_eq_some_iff.1 h
    cases hvalue
    exact Fields.tidy_nil
  case h_8 hfuel =>
    obtain ⟨fields, hfields, hvalue⟩ := Option.map_eq_some_iff.1 h
    cases hvalue
    cases hfuel
    exact hmembers hfields
  case h_9 =>
    obtain ⟨v, hword, hvalue⟩ := Option.map_eq_some_iff.1 h
    cases hvalue
    exact members_of_ofWord? hword ▸ Fields.tidy_nil

/-- An inline table stays tidy with one member more, since a member writes as a dotted key does.
-/
theorem tidy_members?_succ
    (hvalue : ∀ {depth ts value rest}, value? fuel depth ts = some (value, rest) →
      value.members.Tidy)
    (hmembers : ∀ {depth before ts fields rest}, before.Tidy →
      members? fuel depth before ts = some (fields, rest) → fields.Tidy)
    (hbefore : before.Tidy) (h : members? (fuel + 1) depth before ts = some (fields, rest)) :
    fields.Tidy := by
  unfold members? at h
  split at h
  · cases h
    exact hbefore
  split at h
  · cases h
  split at h
  case h_2 => cases h
  split at h
  · cases h
  case h_2 hread =>
    split at h
    · cases h
    case h_2 hassign =>
      have hfields := hbefore.assign (hvalue hread) hassign
      split at h
      · exact hmembers hfields h
      · cases h
        exact hfields
      · cases h

/-- **Values and inline tables are read tidy.**  A value may be an inline table, and each member
has a value, so that both go through one induction on the fuel. -/
theorem tidy_read (fuel : Nat) :
    (∀ {depth ts value rest}, value? fuel depth ts = some (value, rest) → value.members.Tidy) ∧
    ∀ {depth before ts fields rest}, before.Tidy →
      members? fuel depth before ts = some (fields, rest) → fields.Tidy := by
  induction fuel with
  | zero => exact ⟨fun h => by simp [value?] at h, fun _ h => by simp [members?] at h⟩
  | succ fuel ih =>
    obtain ⟨hvalue, hmembers⟩ := ih
    exact ⟨tidy_value?_succ (hmembers Fields.tidy_nil), tidy_members?_succ hvalue hmembers⟩

/-- A line that is read holds tidy tables only, since an inline table refuses a second key. -/
theorem tidy_line? {line : Line} (h : line? fuel ts = some (line, rest)) : line.Tidy := by
  unfold line? at h
  split at h
  · split at h
    · cases h
      exact trivial
    · cases h
  · split at h
    · cases h
      exact trivial
    · cases h
  · split at h
    · obtain ⟨v, hread, hline⟩ := Option.map_eq_some_iff.1 h
      cases hline
      exact (tidy_read fuel).1 hread
    · cases h

/-- All lines of a document hold tidy tables only: where a value is a table in braces, its
members were written one by one. -/
theorem tidy_lines? {lines : List Line} (h : lines? fuel ts = some lines) :
    ∀ line ∈ lines, line.Tidy := by
  induction fuel generalizing ts lines with
  | zero => cases h
  | succ fuel ih =>
    unfold lines? at h
    split at h
    · cases h
      exact fun _ hline => absurd hline List.not_mem_nil
    split at h
    · cases h
    case h_2 hread =>
      split at h
      · cases h
      · obtain ⟨lines, hlines, rfl⟩ := Option.map_eq_some_iff.1 h
        exact List.forall_mem_cons.2 ⟨tidy_line? hread, ih hlines⟩

end Read

end Parse

/-- **A document is tidy:** no key stands twice, at whatever depth.  So it can be asked for a
key without regard to where it stands. -/
theorem tidy_of_parse? {document : Text} {fields : Fields} (h : parse? document = some fields) :
    fields.Tidy := by
  obtain ⟨tokens, -, h⟩ := Option.bind_eq_some_iff.1 h
  obtain ⟨lines, hlines, h⟩ := Option.bind_eq_some_iff.1 h
  obtain ⟨d, hd, rfl⟩ := Option.map_eq_some_iff.1 h
  exact tidy_of_foldlM Fields.tidy_nil (Parse.tidy_lines? hlines) hd

end Toml

end DocLint
