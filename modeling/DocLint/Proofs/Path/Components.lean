/-
# The components of joined paths

A name joined to a path becomes the last of its components, however the path is
written: with a slash at the end, with `.` pieces, absolute or relative.

| of `join base name` | is |
| --- | --- |
| the components | those of `base`, then `name` (`components_join`) |
| the last name | `name` (`lastName?_join`) |
| the start | that of `base` (`isAbsolute_join`) |
| the text | `stem base`, then `name` (`join_eq_append`) |

So different names give different paths (`join_right_inj`), and no path below one of
them is below another (`isWithin_join_iff`).
-/

import DocLint.Path
import DocLint.Proofs.Text.Pieces

namespace DocLint

namespace Path

/-- The pieces that name something or go up. -/
def named (ps : List Bytes) : List Bytes := ps.filter fun c => c ≠ [] ∧ c ≠ dot

/-- The components of a path. -/
def components (p : Path) : List Bytes := named (pieces p)

/-- What stands in front of a name that is joined to `base`: `base`, closed by a
slash where it is not empty. -/
def stem (base : Path) : Bytes := join base []

/-- `p` is `base` or lies below it. -/
def IsWithin (base p : Path) : Prop := p = base ∨ base ++ [slash] <+: p

instance (base p : Path) : Decidable (IsWithin base p) :=
  inferInstanceAs (Decidable (_ ∨ _))

/-- `p` with `new` in place of `old` in front of the names joined to it. -/
def reroot (old new p : Path) : Path :=
  if stem old <+: p then stem new ++ p.drop (stem old).length else p

variable {base name : Bytes}

/-- A single component does not begin with a slash, so it is joined below a path and does not
replace it. -/
theorem IsName.isAbsolute_eq_false (h : IsName name) : isAbsolute name = false := by
  cases name with
  | nil => rfl
  | cons c name =>
    have hc : c ≠ slash := fun e => h.2.2.2 (e ▸ List.mem_cons_self)
    simpa [isAbsolute] using hc

/-- **A name stands behind the stem.**  The stem is the base with a slash at its end, one and no
second, or nothing where the base is empty. -/
theorem join_eq_append (h : isAbsolute name = false) (base : Path) :
    join base name = stem base ++ name := by
  unfold stem join
  rw [h]
  simp only [Bool.false_eq_true, if_false, isAbsolute, List.head?_nil, Option.none_beq_some]
  split
  · rw [List.append_nil]
  · rw [List.append_assoc]
    rfl

theorem stem_nil : stem [] = [] := rfl

/-- A stem that is not empty ends with the slash; what is in front of it is the path,
less a slash that the path had at its end. -/
theorem exists_stem_eq (h : base ≠ []) :
    ∃ p, stem base = p ++ [slash] ∧ (base = p ∨ base = p ++ [slash]) := by
  unfold stem join
  simp only [isAbsolute, List.head?_nil, Option.none_beq_some, Bool.false_eq_true, if_false]
  split
  · next hcases =>
    have hlast := hcases.resolve_left h
    obtain ⟨p, rfl⟩ := List.getLast?_eq_some_iff.1 hlast
    exact ⟨p, by rw [List.append_nil], .inr rfl⟩
  · exact ⟨base, rfl, .inl rfl⟩

/-- The pieces of a path with a name joined to it are the name behind the pieces of
the path, an empty piece at their end left out. -/
theorem exists_pieces_join (h : IsName name) (hbase : base ≠ []) :
    ∃ ps, pieces (join base name) = ps ++ [name] ∧
      (pieces base = ps ∨ pieces base = ps ++ [[]]) := by
  obtain ⟨p, hstem, hp⟩ := exists_stem_eq hbase
  refine ⟨pieces p, ?_, ?_⟩
  · rw [join_eq_append h.isAbsolute_eq_false, hstem, List.append_assoc, pieces,
      List.singleton_append,
      List.splitOn_append_cons_self, List.splitOn_eq_singleton h.2.2.2]
    rfl
  · rcases hp with rfl | rfl
    · exact .inl rfl
    · right
      rw [pieces, List.splitOn_append_cons_self, List.splitOn_nil]
      rfl

/-- A piece that names something counts, `..` among them: it is a step like any other until it
is walked. -/
theorem named_cons_of_isNamed {piece : Bytes} (h : ¬ (piece = [] ∨ piece = dot)) (ps : List Bytes) :
    named (piece :: ps) = piece :: named ps :=
  List.filter_cons_of_pos (by simpa using not_or.1 h)

/-- An empty piece and `.` stay where they are and do not count, so slashes may be doubled and
`.` written anywhere. -/
theorem named_cons_of_stays {piece : Bytes} (h : piece = [] ∨ piece = dot) (ps : List Bytes) :
    named (piece :: ps) = named ps := by
  refine List.filter_cons_of_neg ?_
  rcases h with rfl | rfl <;> simp

theorem named_append (ps qs : List Bytes) : named (ps ++ qs) = named ps ++ named qs :=
  List.filter_append ..

theorem IsName.named_singleton (h : IsName name) : named [name] = [name] :=
  named_cons_of_isNamed (not_or.2 ⟨h.1, h.2.1⟩) []

/-- A single component is its own only component, so what the entries of a directory are called
is what they are joined as. -/
theorem components_of_isName (h : IsName name) : components name = [name] := by
  rw [components, pieces, List.splitOn_eq_singleton h.2.2.2, h.named_singleton]

/-- **A joined name is the last component,** behind those of the path, however that is spelled.
-/
theorem components_join (h : IsName name) (base : Path) :
    components (join base name) = components base ++ [name] := by
  by_cases hbase : base = []
  · rw [hbase, join_eq_append h.isAbsolute_eq_false, stem_nil, List.nil_append,
      components_of_isName h]
    rfl
  · obtain ⟨ps, hjoin, hpieces⟩ := exists_pieces_join h hbase
    rw [components, hjoin, named_append, h.named_singleton, components]
    rcases hpieces with hpieces | hpieces
    · rw [hpieces]
    · rw [hpieces, named_append, named_cons_of_stays (.inl rfl)]
      exact congrArg (· ++ [name]) (List.append_nil _).symm

/-- **The last name of a joined path is the name.**  So a document is called by the entry that
it was found as. -/
theorem lastName?_join (h : IsName name) (base : Path) :
    lastName? (join base name) = some name := by
  show ((components (join base name)).getLast?.filter (· ≠ dotDot)) = some name
  rw [components_join h, List.getLast?_concat]
  simp [h.2.2.1]

/-- A name joined to a path starts where the path starts: at the top or in the working
directory. -/
theorem isAbsolute_join (h : IsName name) (base : Path) :
    isAbsolute (join base name) = isAbsolute base := by
  rw [join_eq_append h.isAbsolute_eq_false]
  by_cases hbase : base = []
  · rw [hbase, stem_nil, List.nil_append, h.isAbsolute_eq_false]
    rfl
  · obtain ⟨p, hstem, hp⟩ := exists_stem_eq hbase
    rw [hstem]
    cases p with
    | nil => rcases hp with rfl | rfl <;> first | exact absurd rfl hbase | rfl
    | cons c p => rcases hp with rfl | rfl <;> rfl

/-- A path with a name joined to it is not empty, even where the path itself is, so it is not
refused for that. -/
theorem join_ne_nil (h : IsName name) (base : Path) : join base name ≠ [] := by
  rw [join_eq_append h.isAbsolute_eq_false]
  exact fun e => h.1 (List.append_eq_nil_iff.1 e).2

/-- A joined name that goes nowhere up brings no `..` into a path that has none, so entries stay
below their root. -/
theorem dotDot_not_mem_pieces_join (h : IsName name) (hbase : dotDot ∉ pieces base) :
    dotDot ∉ pieces (join base name) := by
  have hname : dotDot ≠ name := fun e => h.2.2.1 e.symm
  by_cases hnil : base = []
  · rw [hnil, join_eq_append h.isAbsolute_eq_false, stem_nil, List.nil_append, pieces,
      List.splitOn_eq_singleton h.2.2.2]
    simpa using hname
  · obtain ⟨ps, hjoin, hpieces⟩ := exists_pieces_join h hnil
    rw [hjoin, List.mem_append, List.mem_singleton, not_or]
    refine ⟨fun hmem => hbase ?_, hname⟩
    rcases hpieces with hpieces | hpieces
    · rwa [hpieces]
    · rw [hpieces]
      exact List.mem_append_left _ hmem

/-! ### Paths under one root -/

variable {root other rest : Bytes}

/-- **Different names give different paths.**  So the documents under a root are told apart by
their paths. -/
theorem join_right_inj (h : IsName name) (hother : IsName other) :
    join root name = join root other ↔ name = other := by
  rw [join_eq_append h.isAbsolute_eq_false, join_eq_append hother.isAbsolute_eq_false,
    List.append_right_inj]

/-- A name does not end with a slash, so a second one is joined to it by a slash. -/
theorem join_join (h : IsName name) (hrest : IsName rest) (root : Path) :
    join (join root name) rest = join root name ++ slash :: rest := by
  have hlast : (join root name).getLast? ≠ some slash := by
    have hc : name.getLast h.1 ≠ slash := fun e => h.2.2.2 (e ▸ List.getLast_mem h.1)
    rw [join_eq_append h.isAbsolute_eq_false, ← List.dropLast_concat_getLast h.1,
      ← List.append_assoc, List.getLast?_concat]
    simpa using hc
  rw [join.eq_def (join root name), hrest.isAbsolute_eq_false, if_neg Bool.false_ne_true,
    if_neg (not_or.2 ⟨join_ne_nil h root, hlast⟩)]

/-- **What is under one name is not under another.**  Behind a name a path ends or
goes on with a slash, so that no name is taken for the start of a longer one. -/
theorem isWithin_join_iff (h : IsName name) (hother : IsName other)
    (hrest : rest = [] ∨ ∃ r, rest = slash :: r) :
    IsWithin (join root name) (join root other ++ rest) ↔ name = other := by
  rw [IsWithin, join_eq_append h.isAbsolute_eq_false, join_eq_append hother.isAbsolute_eq_false,
    List.append_assoc, List.append_assoc, List.append_right_inj, List.prefix_append_right_inj]
  rcases hrest with rfl | ⟨r, rfl⟩
  · rw [List.append_nil]
    refine ⟨fun hcases => ?_, fun e => .inl e.symm⟩
    rcases hcases with e | hstarts
    · exact e.symm
    · exact absurd (hstarts.subset (List.mem_append_right _ List.mem_cons_self)) hother.2.2.2
  · constructor
    · rintro (e | ⟨s, hs⟩)
      · exact absurd (e ▸ List.mem_append_right _ List.mem_cons_self) h.2.2.2
      · have hpieces := congrArg (List.splitOn slash) hs
        rw [List.append_assoc, List.singleton_append,
          List.splitOn_append_cons_self_of_not_mem h.2.2.2,
          List.splitOn_append_cons_self_of_not_mem hother.2.2.2] at hpieces
        exact (List.cons.inj hpieces).1
    · rintro rfl
      exact .inr ⟨r, by rw [List.append_assoc]; rfl⟩

/-- **A path under one root becomes the path of the same names under another.**  What stands
behind the name is kept, be it nothing or the document of a skill. -/
theorem reroot_join (h : IsName name) (root new rest : Bytes) :
    reroot root new (join root name ++ rest) = join new name ++ rest := by
  rw [join_eq_append h.isAbsolute_eq_false, join_eq_append h.isAbsolute_eq_false,
    List.append_assoc, List.append_assoc, reroot, if_pos (List.prefix_append _ _),
    List.drop_left]

/-- Under one and the same root nothing moves, so two runs over one root are compared without
moving paths. -/
theorem reroot_self (root : Path) : reroot root root = id := by
  funext p
  unfold reroot
  split
  · next h => exact List.prefix_iff_eq_append.1 h
  · rfl

end Path

end DocLint
