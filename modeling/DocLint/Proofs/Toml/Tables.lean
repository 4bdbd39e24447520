/-
# Three ways to write a table

One table can be written in three ways, here `t` with `a = 1` and `b = 2` in it:

| way | lines | origin |
| --- | --- | --- |
| a section (`sectionLines`) | `[t]`, `a = 1`, `b = 2` | `section` |
| dotted keys (`dottedLines`) | `t.a = 1`, `t.b = 2` | `dotted` |
| inline (`inlineLines`) | `t = { a = 1, b = 2 }` | `inline` |

Each adds the same fields under the same key to whatever the document has already
(`adds_spelled`).  Only the origin tells which of the three it was.
-/

import DocLint.Proofs.Toml.Keys

namespace DocLint

namespace Toml

namespace Fields

/-- Of two writes under one key the later holds, in the place of the first, so a table that
grows by one field at a time stays where it was opened. -/
theorem set_set (key : Text) (value value' : Value) (fields : Fields) :
    (fields.set key value').set key value = fields.set key value :=
  Association.set_set key value value' fields

/-- A new key comes last, behind all fields that are there, so the fields of a table stand in
the order of its lines. -/
theorem set_of_get?_eq_none {fields : Fields} {key : Text} (h : fields.get? key = none)
    (value : Value) : fields.set key value = fields ++ [(key, value)] :=
  Association.set_of_lookup_eq_none h value

/-- A field that comes behind others has a key that none of them has, so it is new when its line
is read. -/
theorem Distinct.get?_eq_none {before after : Fields} {f : Text × Value}
    (h : Distinct (before ++ f :: after)) : before.get? f.1 = none := by
  rw [Distinct, Association.Distinct, List.map_append, List.map_cons] at h
  rw [get?, Association.lookup_eq_none_iff]
  exact fun hmem => (List.nodup_append.1 h).2.2 f.1 hmem f.1 List.mem_cons_self rfl

end Fields

/-- The lines that write a table as a section. -/
def sectionLines (name : Text) (fields : Fields) : List Line :=
  .header [name] :: fields.map fun f => .assign [f.1] f.2

/-- The lines that write a table by dotted keys. -/
def dottedLines (name : Text) (fields : Fields) : List Line :=
  fields.map fun f => .assign [name, f.1] f.2

/-- The line that writes a table inline. -/
def inlineLines (name : Text) (fields : Fields) : List Line :=
  [.assign [name] (.table .inline fields)]

/-- **Lines that each add one field add all of them,** if no key comes twice.  The three ways to
write a table differ in the step alone. -/
theorem foldlM_add_of_step {line : Text × Value → Line} {draft : Fields → Draft}
    (step : ∀ (before : Fields) (f : Text × Value), before.get? f.1 = none →
      (draft before).add (line f) = some (draft (before ++ [f])))
    (before : Fields) {fields : Fields} (h : Fields.Distinct (before ++ fields)) :
    (fields.map line).foldlM Draft.add (draft before) = some (draft (before ++ fields)) := by
  induction fields generalizing before with
  | nil => simp
  | cons f fields ih =>
    have hrest : Fields.Distinct ((before ++ [f]) ++ fields) := by simpa using h
    rw [List.map_cons, List.foldlM_cons, step before f h.get?_eq_none, Option.bind_eq_bind,
      Option.bind_some, ih _ hrest, List.append_assoc]
    rfl

/-- Under a header, a key adds to the section of the header, behind what is there; the rest of
the document is not looked at. -/
theorem add_assign_section (top : Fields) (name : Text) (before : Fields) (f : Text × Value)
    (h : before.get? f.1 = none) :
    Draft.add ⟨top.set name (.table .section before), [name]⟩ (.assign [f.1] f.2) =
      some ⟨top.set name (.table .section (before ++ [f])), [name]⟩ := by
  simp [Draft.add, Fields.within, Fields.assign, Fields.get?_set, h, Fields.set_set,
    Fields.set_of_get?_eq_none h]

/-- In front of all headers, a dotted key adds to the table of its first part, behind what is
there. -/
theorem add_assign_dotted (top : Fields) (name : Text) (before : Fields) (f : Text × Value)
    (h : before.get? f.1 = none) :
    Draft.add ⟨top.set name (.table .dotted before), []⟩ (.assign [name, f.1] f.2) =
      some ⟨top.set name (.table .dotted (before ++ [f])), []⟩ := by
  simp [Draft.add, Fields.within, Fields.assign, Fields.get?_set, h, Fields.set_set,
    Fields.set_of_get?_eq_none h]

/-- **The three ways to write a table add the same fields under the same key.**  A section
may stand behind any header, the other two in front of all; by dotted keys an empty table is
not written at all. -/
theorem adds_spelled {d : Draft} {name : Text} {fields : Fields} (hname : d.top.get? name = none)
    (hfields : fields.Distinct) :
    (sectionLines name fields).foldlM Draft.add d =
        some ⟨d.top.set name (.table .section fields), [name]⟩ ∧
    (d.header = [] → fields ≠ [] → (dottedLines name fields).foldlM Draft.add d =
      some ⟨d.top.set name (.table .dotted fields), []⟩) ∧
    (d.header = [] → (inlineLines name fields).foldlM Draft.add d =
      some ⟨d.top.set name (.table .inline fields), []⟩) := by
  obtain ⟨top, header⟩ := d
  refine ⟨?_, ?_, ?_⟩
  · have hheader : Draft.add ⟨top, header⟩ (.header [name]) =
        some ⟨top.set name (.table .section []), [name]⟩ := by
      simp_all [Draft.add, Fields.within, Fields.openTable]
    have hrest := foldlM_add_of_step (add_assign_section top name) [] hfields
    rw [sectionLines, List.foldlM_cons, hheader]
    exact hrest
  · rintro rfl hne
    obtain ⟨f, rest, rfl⟩ := List.exists_cons_of_ne_nil hne
    have hfirst : Draft.add ⟨top, []⟩ (.assign [name, f.1] f.2) =
        some ⟨top.set name (.table .dotted [f]), []⟩ := by
      simp only [Draft.add, Fields.within, Fields.assign, hname]
      rfl
    have hrest := foldlM_add_of_step (add_assign_dotted top name) [f] hfields
    rw [dottedLines, List.map_cons, List.foldlM_cons, hfirst]
    exact hrest
  · rintro rfl
    have hline : Draft.add ⟨top, []⟩ (.assign [name] (.table .inline fields)) =
        some ⟨top.set name (.table .inline fields), []⟩ := by
      simp_all [Draft.add, Fields.within, Fields.assign]
    rw [inlineLines, List.foldlM_cons, hline]
    rfl

end Toml

end DocLint
