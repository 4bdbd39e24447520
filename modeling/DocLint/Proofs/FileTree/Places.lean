/-
# Places in a tree

A place is named by the names that lead to it.  What can be said of a tree without
the order in which its directories are written down is said of places:

| notion | meaning |
| --- | --- |
| `a.at? q` | the node at the place `q` of `a` |
| `a.face` | what `a` is, apart from what is in it |
| `a.Everywhere P` | `P` holds of `a` and of all that is below |
| `a.AgreeOn S b` | at each place of `S` the same stands in `a` and in `b` |
| `a.SameContent b` | they agree on all places |

A tree that can stand on a disk is `WellFormed`: no directory has two entries of one
name, and each name is one that a path can name.  That is checked node by node
(`everywhere_of_nodes`).  Writing at a place changes nothing at any other
(`agreeOn_put`).
-/

import DocLint.FileTree.Basic

namespace DocLint

namespace Node

/-- What stands at a place, apart from what is below it. -/
inductive Face
  | file (content : Bytes)
  | directory
  | link (target : Path)
deriving Repr, DecidableEq

/-- What a node is, apart from what is in it. -/
def face : Node → Face
  | .file content => .file content
  | .directory _ => .directory
  | .link target => .link target

/-- The node at a place. -/
def at? : Node → List Bytes → Option Node
  | node, [] => some node
  | node, name :: place => (node.child? name).bind fun child => child.at? place

/-- `P` holds of the node and of all that is below. -/
def Everywhere (P : Node → Prop) (node : Node) : Prop :=
  ∀ place below, node.at? place = some below → P below

/-- The names in a directory. -/
def names (node : Node) : List Bytes := node.entries.map (·.1)

/-- The names in a directory are names, and each stands there once. -/
def HasProperNames (node : Node) : Prop :=
  node.names.Nodup ∧ ∀ name ∈ node.names, Path.IsName name

/-- A tree as it can stand on a disk. -/
def WellFormed (node : Node) : Prop := node.Everywhere HasProperNames

/-- A tree without symbolic links. -/
def LinkFree (node : Node) : Prop := node.Everywhere fun below => ∀ target, below ≠ .link target

/-- At each place of `S` the same stands in `a` and in `b`, or nothing in both. -/
def AgreeOn (S : List Bytes → Prop) (a b : Node) : Prop :=
  ∀ place, S place → (a.at? place).map face = (b.at? place).map face

/-- The same stands at all places of `a` and `b`. -/
def SameContent (a b : Node) : Prop := a.AgreeOn (fun _ => True) b

variable {P : Node → Prop} {S : List Bytes → Prop} {a b node below : Node} {name : Bytes}
  {place rest : List Bytes}

@[simp]
theorem at?_nil (node : Node) : node.at? [] = some node := by
  cases node <;> rfl

/-- A place is reached name by name, from the outside in, so a fact about it is proved by
induction on the names. -/
@[simp]
theorem at?_cons (node : Node) (name : Bytes) (place : List Bytes) :
    node.at? (name :: place) = (node.child? name).bind fun child => child.at? place := by
  cases node <;> rfl

theorem at?_singleton (node : Node) (name : Bytes) : node.at? [name] = node.child? name := by
  simp

/-- A place is reached in two steps, first to a node on the way and from there to what is below
it. -/
theorem at?_append (node : Node) (place rest : List Bytes) :
    node.at? (place ++ rest) = (node.at? place).bind fun below => below.at? rest := by
  induction place generalizing node with
  | nil => simp
  | cons name place ih =>
    rw [List.cons_append, at?_cons, at?_cons, Option.bind_assoc]
    exact congrArg _ (funext ih)

/-- A node has a child for each of its names and for no other; a file and a link have no names
and so no child. -/
theorem child?_isSome_iff : (node.child? name).isSome ↔ name ∈ node.names := by
  rw [child?, List.lookup_isSome_iff, names, List.mem_map]
  refine exists_congr fun e => and_congr_right fun _ => ?_
  rw [beq_iff_eq]
  exact eq_comm

/-- A node with something in it is a directory, whatever else is there: files and links have no
children. -/
theorem face_of_child? (h : node.child? name = some below) : node.face = .directory := by
  cases node with
  | directory entries => rfl
  | file content => exact absurd h (Option.some_ne_none below).symm
  | link target => exact absurd h (Option.some_ne_none below).symm

theorem exists_entries_of_face (h : node.face = .directory) :
    ∃ entries, node = .directory entries := by
  cases node with
  | directory entries => exact ⟨entries, rfl⟩
  | file content => cases h
  | link target => cases h

/-! ### What holds everywhere -/

theorem Everywhere.here (h : node.Everywhere P) : P node := h [] node (at?_nil node)

/-- What holds everywhere below a node holds everywhere below each of its places, by induction
on the names that lead there. -/
theorem Everywhere.of_at? (h : node.Everywhere P) (hplace : node.at? place = some below) :
    below.Everywhere P := by
  intro rest node' hnode'
  refine h (place ++ rest) node' ?_
  rw [at?_append, hplace]
  exact hnode'

/-- What holds everywhere below a node holds everywhere below each child, which is a place one
name away. -/
theorem Everywhere.of_child? (h : node.Everywhere P) (hchild : node.child? name = some below) :
    below.Everywhere P :=
  h.of_at? ((at?_singleton node name).trans hchild)

/-- A node without links is no link itself, so a walk that comes to it ends there or goes on
below it. -/
theorem LinkFree.ne_link (h : node.LinkFree) (target : Path) : node ≠ .link target := h.here target

/-! ### Checking a tree -/

mutual

/-- A node and all that is below, whether a place leads there or not. -/
def nodes : Node → List Node
  | .file content => [.file content]
  | .link target => [.link target]
  | .directory entries => .directory entries :: entryNodes entries

/-- All nodes of some entries. -/
def entryNodes : List (Bytes × Node) → List Node
  | [] => []
  | (_, node) :: entries => nodes node ++ entryNodes entries

end

theorem self_mem_nodes (node : Node) : node ∈ node.nodes := by
  cases node <;> simp [nodes]

/-- The nodes of a child are among those of its parent, so fuel that suffices for the parent
suffices for the child. -/
theorem nodes_subset_of_child? (h : node.child? name = some below) : below.nodes ⊆ node.nodes := by
  obtain ⟨entries, rfl⟩ := exists_entries_of_face (face_of_child? h)
  have hmem : (name, below) ∈ entries := Association.mem_of_lookup h
  rw [nodes]
  refine List.subset_cons_of_subset _ ?_
  clear h
  induction entries with
  | nil => exact absurd hmem List.not_mem_nil
  | cons e entries ih =>
    rw [entryNodes]
    rcases List.mem_cons.1 hmem with rfl | hmem
    · exact List.subset_append_left _ _
    · exact List.Subset.trans (ih hmem) (List.subset_append_right _ _)

/-- **What holds of all nodes holds everywhere,** so that it can be decided of a tree by looking
at its finitely many nodes. -/
theorem everywhere_of_nodes (h : ∀ node' ∈ node.nodes, P node') : node.Everywhere P := by
  intro place below hbelow
  induction place generalizing node with
  | nil =>
    rw [at?_nil, Option.some.injEq] at hbelow
    exact hbelow ▸ h node (self_mem_nodes node)
  | cons name place ih =>
    rw [at?_cons, Option.bind_eq_some_iff] at hbelow
    obtain ⟨child, hchild, hbelow⟩ := hbelow
    exact ih (fun node' hnode' => h node' (nodes_subset_of_child? hchild hnode')) hbelow

/-- An empty directory has what empty directories have: there is no other place in it. -/
theorem everywhere_empty (h : P (.directory [])) : (Node.directory []).Everywhere P :=
  everywhere_of_nodes (List.forall_mem_singleton.2 h)

instance : DecidablePred Path.IsName := fun name =>
  inferInstanceAs (Decidable (name ≠ [] ∧ name ≠ Path.dot ∧ name ≠ Path.dotDot ∧ Path.slash ∉ name))

instance (node : Node) : Decidable node.HasProperNames :=
  inferInstanceAs (Decidable (_ ∧ _))

instance (node : Node) : Decidable (∀ target, node ≠ .link target) :=
  match node with
  | .file _ => .isTrue fun _ => Node.noConfusion
  | .directory _ => .isTrue fun _ => Node.noConfusion
  | .link target => .isFalse fun h => h target rfl

/-! ### Agreement -/

theorem AgreeOn.refl (S : List Bytes → Prop) (a : Node) : a.AgreeOn S a := fun _ _ => rfl

/-- Nodes that agree at the top look alike from outside: both are files of one content, both
directories, or both links to one target. -/
theorem AgreeOn.face_eq (h : a.AgreeOn S b) (hS : S []) : a.face = b.face := by
  simpa using h [] hS

/-- Nodes that agree have the same names, as far as the agreement goes; in which order they are
listed does not matter. -/
theorem AgreeOn.mem_names_iff (h : a.AgreeOn S b) (hS : S [name]) :
    name ∈ a.names ↔ name ∈ b.names := by
  have hface := congrArg Option.isSome (h [name] hS)
  rw [at?_singleton, at?_singleton, Option.isSome_map, Option.isSome_map] at hface
  rw [← child?_isSome_iff, ← child?_isSome_iff, hface]

/-- At a place of the agreement there is a node in both or in neither, and if there
is, the two agree below. -/
theorem AgreeOn.at?_cases (h : a.AgreeOn S b) (hS : S place) :
    (a.at? place = none ∧ b.at? place = none) ∨
      ∃ a' b', a.at? place = some a' ∧ b.at? place = some b' ∧
        a'.AgreeOn (fun rest => S (place ++ rest)) b' := by
  have hface := h place hS
  cases ha : a.at? place with
  | none =>
    cases hb : b.at? place with
    | none => exact .inl ⟨rfl, rfl⟩
    | some b' =>
      rw [ha, hb] at hface
      exact absurd hface (Option.some_ne_none _).symm
  | some a' =>
    cases hb : b.at? place with
    | none =>
      rw [ha, hb] at hface
      exact absurd hface (Option.some_ne_none _)
    | some b' =>
      refine .inr ⟨a', b', rfl, rfl, fun rest hrest => ?_⟩
      have hbelow := h (place ++ rest) hrest
      rwa [at?_append, at?_append, ha, hb] at hbelow

/-- What has the content of a tree without links has no links, since a link shows in its face.
-/
theorem LinkFree.of_sameContent (ha : a.LinkFree) (h : a.SameContent b) : b.LinkFree := by
  intro place below hbelow target hlink
  have hface := h place trivial
  rw [hbelow, hlink, Option.map_some] at hface
  obtain ⟨node, hnode, heq⟩ := Option.map_eq_some_iff.1 hface
  cases node with
  | link other => exact ha place _ hnode other rfl
  | file content => exact absurd heq (by simp [face])
  | directory entries => exact absurd heq (by simp [face])

/-! ### Writing at a place -/

/-- **Putting a node at a place touches one child,** the first name of that place; a directory
that was not there comes to be. -/
theorem child?_put_cons (new : Node) (name other : Bytes) (place : List Bytes) (node : Node) :
    (put new (name :: place) node).child? other =
      if other = name then some (put new place ((node.child? name).getD (.directory [])))
      else node.child? other := by
  rw [put, child?, entries, Association.lookup_set]
  rfl

/-- **Writing in a directory changes nothing at any other place.**  A place is another if it is
not within the one that is written to. -/
theorem agreeOn_put (new : Node) {name : Bytes} {parent : List Bytes} {entries : List (Bytes × Node)}
    (h : node.at? parent = some (.directory entries)) :
    node.AgreeOn (fun place => ¬ parent ++ [name] <+: place) (put new (parent ++ [name]) node) := by
  -- A place either leaves the way to the new entry, or goes one step along it.
  induction parent generalizing node with
  | nil =>
    rw [at?_nil, Option.some.injEq] at h
    rintro (- | ⟨other, place⟩) hplace
    · rw [h]
      rfl
    · have hother : other ≠ name := by
        rintro rfl
        exact hplace ⟨place, rfl⟩
      rw [at?_cons, List.nil_append, at?_cons, child?_put_cons, if_neg hother]
  | cons first parent ih =>
    rw [at?_cons, Option.bind_eq_some_iff] at h
    obtain ⟨child, hchild, h⟩ := h
    rintro (- | ⟨other, place⟩) hplace
    · rw [at?_nil, at?_nil, Option.map_some, Option.map_some, face_of_child? hchild]
      rfl
    · rw [at?_cons, List.cons_append, at?_cons, child?_put_cons]
      by_cases hother : other = first
      · rw [if_pos hother, hother, hchild]
        refine ih h place fun hstarts => hplace ?_
        rw [hother, List.cons_append]
        exact List.cons_prefix_cons.2 ⟨rfl, hstarts⟩
      · rw [if_neg hother]

end Node

end DocLint
