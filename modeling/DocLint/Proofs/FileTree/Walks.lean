/-
# Where paths lead

Two laws of following a path, each first for one walk up to a link and then for the
whole path, whatever links it passes.

| law | says |
| --- | --- |
| in parts (`exists_follow_append`) | behind a path that leads somewhere, pieces are followed from there |
| nothing new (`resolve_everywhere`) | what holds everywhere in a tree holds below where a path leads |

By the first a name joined to a path is looked up where the path leads
(`exists_resolve_join`), by the second that place is in a well-formed tree again
(`wellFormed_of_resolve`).
-/

import DocLint.FileTree.Resolve
import DocLint.Proofs.FileTree.Places
import DocLint.Proofs.Path.Components

namespace DocLint

/-- The names under `root` are names, and each is listed once. -/
def FileSystem.ProperlyNamed (fs : FileSystem) (root : Path) : Prop :=
  (fs.names root).Nodup ∧ ∀ name ∈ fs.names root, Path.IsName name

namespace FileTree

open Node

/-- The place where a path starts. -/
def startOf (t : FileTree) (path : Path) : Place :=
  if Path.isAbsolute path then ⟨t.top, []⟩ else t.workingPlace

/-- `path` is short enough to be followed. -/
def Fits (path : Path) : Prop := path.length < maxPathBytes

variable {p : Place} {top : Node} {links : Nat} {pieces rest : List Bytes} {node : Node}

/-! ### One step -/

/-- In a directory the first piece decides.  This opens one step of a walk; no other proof
unfolds it. -/
theorem walk_cons_directory {entries : List (Bytes × Node)} (h : p.here = .directory entries)
    (piece : Bytes) (rest : List Bytes) :
    walk p (piece :: rest) =
      if piece = [] ∨ piece = Path.dot then walk p rest
      else if piece = Path.dotDot then walk p.up rest
      else if maxNameBytes < piece.length then .error .nameTooLong
      else
        match p.here.child? piece with
        | none => .error .notFound
        | some (.link target) => .ok (.link p target rest)
        | some node => walk (p.down node) rest := by
  obtain ⟨here, above⟩ := p
  obtain rfl : here = .directory entries := h
  rfl

/-- A walk goes to what a name names, where that is no link: a link would have its pieces
followed first. -/
theorem walk_cons_child {piece : Bytes} (hstay : ¬ (piece = [] ∨ piece = Path.dot))
    (hup : piece ≠ Path.dotDot) (hlong : ¬ maxNameBytes < piece.length)
    (hchild : p.here.child? piece = some node) (hlink : ∀ target, node ≠ .link target)
    (rest : List Bytes) : walk p (piece :: rest) = walk (p.down node) rest := by
  obtain ⟨entries, hhere⟩ := exists_entries_of_face (face_of_child? hchild)
  rw [walk_cons_directory hhere, if_neg hstay, if_neg hup, if_neg hlong, hchild]
  cases node with
  | file content => rfl
  | directory entries => rfl
  | link target => exact absurd rfl (hlink target)

/-- No piece leads on from what is no directory, not even `.` or an empty one: `a/.` and `a/`
lead nowhere if `a` is a file. -/
theorem walk_cons_of_face_ne (h : p.here.face ≠ .directory) (piece : Bytes) (rest : List Bytes) :
    walk p (piece :: rest) = .error .notADirectory := by
  cases hhere : p.here with
  | directory entries => exact absurd (congrArg face hhere) h
  | file content => rw [walk, hhere]
  | link target => rw [walk, hhere]

/-! ### In parts -/

/-- A walk fails, comes to a place or stops before a link, and what comes behind its
pieces goes on from there. -/
theorem walk_append_cases (p : Place) (pieces : List Bytes) :
    (∃ e, ∀ rest, walk p (pieces ++ rest) = .error e) ∨
    (∃ p', ∀ rest, walk p (pieces ++ rest) = walk p' rest) ∨
    ∃ p' target behind, ∀ rest,
      walk p (pieces ++ rest) = .ok (.link p' target (behind ++ rest)) := by
  induction pieces generalizing p with
  | nil => exact .inr (.inl ⟨p, fun _ => rfl⟩)
  | cons piece pieces ih =>
    cases hhere : p.here with
    | file content => exact .inl ⟨_, fun rest => walk_cons_of_face_ne (by simp [hhere, face]) _ _⟩
    | link target => exact .inl ⟨_, fun rest => walk_cons_of_face_ne (by simp [hhere, face]) _ _⟩
    | directory entries =>
      simp only [List.cons_append, walk_cons_directory hhere]
      split
      · exact ih p
      · split
        · exact ih p.up
        · split
          · exact .inl ⟨_, fun _ => rfl⟩
          · split
            · exact .inl ⟨_, fun _ => rfl⟩
            · next target _ => exact .inr (.inr ⟨p, target, pieces, fun _ => rfl⟩)
            · next node _ _ => exact ih (p.down node)

/-- Only what the walk comes to decides where a path leads, and not the pieces that it took to
come there. -/
theorem follow_congr {p' : Place} {pieces' : List Bytes} (h : walk p pieces = walk p' pieces')
    (top : Node) (links : Nat) : follow top links p pieces = follow top links p' pieces' := by
  cases links <;> rw [follow, follow, h]

theorem follow_of_walk_error {e : FileError} (h : walk p pieces = .error e) (top : Node)
    (links : Nat) : follow top links p pieces = .error e := by
  cases links <;> rw [follow, h]

/-- A path that meets no link leads where the walk along it ends, and the count of links
followed is not touched. -/
theorem follow_of_walk_done (h : walk p pieces = .ok (.done node)) (top : Node) (links : Nat) :
    follow top links p pieces = .ok node := by
  cases links <;> rw [follow, h]

/-- **A path is followed in parts:** its first pieces fail, whatever comes behind them,
or they come to a place from which the rest is followed with the links that are left. -/
theorem follow_append_cases (top : Node) (links : Nat) (p : Place) (pieces : List Bytes) :
    (∃ e, ∀ rest, follow top links p (pieces ++ rest) = .error e) ∨
    ∃ links' p', ∀ rest, follow top links p (pieces ++ rest) = follow top links' p' rest := by
  induction links generalizing p pieces with
  | zero =>
    rcases walk_append_cases p pieces with ⟨e, h⟩ | ⟨p', h⟩ | ⟨p', target, behind, h⟩
    · exact .inl ⟨e, fun rest => follow_of_walk_error (h rest) top 0⟩
    · exact .inr ⟨0, p', fun rest => follow_congr (h rest) top 0⟩
    · exact .inl ⟨.tooManyLinks, fun rest => by rw [follow, h]⟩
  | succ links ih =>
    rcases walk_append_cases p pieces with ⟨e, h⟩ | ⟨p', h⟩ | ⟨p', target, behind, h⟩
    · exact .inl ⟨e, fun rest => follow_of_walk_error (h rest) top (links + 1)⟩
    · exact .inr ⟨links + 1, p', fun rest => follow_congr (h rest) top (links + 1)⟩
    · have hnext (rest : List Bytes) : follow top (links + 1) p (pieces ++ rest) =
          follow top links (if Path.isAbsolute target then ⟨top, []⟩ else p')
            (Path.pieces target ++ behind ++ rest) := by
        rw [follow, h, List.append_assoc]
      simp only [hnext]
      exact ih _ _

/-- **Where pieces lead somewhere, what comes behind them is followed from there,** with the
links that are left.  By induction on those, one walk up to a link at a time. -/
theorem exists_follow_append (h : follow top links p pieces = .ok node) :
    ∃ links' p', p'.here = node ∧
      ∀ rest, follow top links p (pieces ++ rest) = follow top links' p' rest := by
  rcases follow_append_cases top links p pieces with ⟨e, herror⟩ | ⟨links', p', hp'⟩
  · have hnil := herror []
    rw [List.append_nil, h] at hnil
    cases hnil
  · refine ⟨links', p', ?_, hp'⟩
    have hnil := hp' []
    rw [List.append_nil, h, follow, walk] at hnil
    exact (Except.ok.inj hnil).symm

/-! ### Joined names -/

/-- What keeps a path from being followed; any other is followed from its start.  The three
reasons are a NUL, no path at all, and one that is too long. -/
theorem resolve_eq (t : FileTree) (path : Path) :
    t.resolve path =
      if 0 ∈ path then .error .nulByte
      else if path = [] then .error .notFound
      else if maxPathBytes ≤ path.length then .error .nameTooLong
      else follow t.top maxLinks (t.startOf path) (Path.pieces path) := rfl

/-- A path that leads somewhere is followed there from its start, and none of the three reasons
applies. -/
theorem resolve_eq_ok_iff {t : FileTree} {path : Path} :
    t.resolve path = .ok node ↔
      (0 ∉ path ∧ path ≠ [] ∧ Fits path) ∧
        follow t.top maxLinks (t.startOf path) (Path.pieces path) = .ok node := by
  rw [resolve_eq, Fits]
  by_cases hnul : 0 ∈ path
  · simp [hnul]
  · by_cases hnil : path = []
    · simp [hnil]
    · by_cases hlong : maxPathBytes ≤ path.length
      · simp [hnul, hnil, hlong, Nat.not_lt.2 hlong]
      · simp [hnul, hnil, hlong, Nat.not_le.1 hlong]

/-- An empty piece stays in the directory, so a slash at the end asks for a directory and for
nothing in it. -/
theorem here_of_follow_empty (h : follow top links p [[]] = .ok node) : p.here = node := by
  by_cases hface : p.here.face = .directory
  · obtain ⟨entries, hhere⟩ := exists_entries_of_face hface
    have hwalk : walk p [[]] = .ok (.done p.here) := by
      rw [walk_cons_directory hhere, if_pos (.inl rfl), walk]
    rw [follow_of_walk_done hwalk] at h
    exact Except.ok.inj h
  · rw [follow_of_walk_error (walk_cons_of_face_ne hface _ _)] at h
    cases h

/-- A name joined to a path brings in a NUL only if it has one, so no path below a root is
ill-formed by the joining. -/
theorem nul_mem_join_iff {path name : Bytes} (hname : Path.IsName name)
    (hpath : 0 ∉ path) : 0 ∈ Path.join path name ↔ 0 ∈ name := by
  rw [Path.join_eq_append hname.isAbsolute_eq_false, List.mem_append, or_iff_right_iff_imp]
  intro hmem
  unfold Path.stem Path.join at hmem
  split at hmem
  · exact absurd hmem List.not_mem_nil
  · split at hmem
    · rw [List.append_nil] at hmem
      exact absurd hmem hpath
    · rw [List.mem_append] at hmem
      exact absurd (hmem.resolve_left hpath) (by decide)

/-- **A name joined to a path is looked up where the path leads,** unless it cannot be
written or the path gets too long by it. -/
theorem exists_resolve_join {t : FileTree} {path name : Bytes} (h : t.resolve path = .ok node)
    (hname : Path.IsName name) :
    ∃ links p, p.here = node ∧ t.resolve (Path.join path name) =
      if 0 ∈ name then .error .nulByte
      else if maxPathBytes ≤ (Path.join path name).length then .error .nameTooLong
      else follow t.top links p [name] := by
  obtain ⟨⟨hnul, hnil, -⟩, hfollow⟩ := resolve_eq_ok_iff.1 h
  obtain ⟨ps, hjoin, hpieces⟩ := Path.exists_pieces_join hname hnil
  have hstart : t.startOf (Path.join path name) = t.startOf path := by
    rw [startOf, startOf, Path.isAbsolute_join hname]
  have hplace : ∃ links p, p.here = node ∧
      follow t.top maxLinks (t.startOf path) (ps ++ [name]) = follow t.top links p [name] := by
    rcases hpieces with hpieces | hpieces
    · rw [hpieces] at hfollow
      obtain ⟨links, p, hhere, hrest⟩ := exists_follow_append hfollow
      exact ⟨links, p, hhere, hrest [name]⟩
    · rw [hpieces] at hfollow
      rcases follow_append_cases t.top maxLinks (t.startOf path) ps with
        ⟨e, herror⟩ | ⟨links, p, hrest⟩
      · rw [herror] at hfollow
        cases hfollow
      · rw [hrest] at hfollow
        exact ⟨links, p, here_of_follow_empty hfollow, hrest [name]⟩
  obtain ⟨links, p, hhere, hrest⟩ := hplace
  refine ⟨links, p, hhere, ?_⟩
  simp only [resolve_eq, hstart, hjoin, hrest, if_neg (Path.join_ne_nil hname path),
    nul_mem_join_iff hname hnul]

/-- **An entry that is no link is what its path leads to,** where the path can be
followed. -/
theorem resolve_join_of_child? {t : FileTree} {path name : Bytes} {child : Node}
    (h : t.resolve path = .ok node) (hname : Path.IsName name) (hnul : 0 ∉ name)
    (hbytes : name.length ≤ maxNameBytes) (hfits : Fits (Path.join path name))
    (hchild : node.child? name = some child) (hlink : ∀ target, child ≠ .link target) :
    t.resolve (Path.join path name) = .ok child := by
  obtain ⟨links, p, rfl, hresolve⟩ := exists_resolve_join h hname
  have hwalk : walk p [name] = .ok (.done child) := by
    rw [walk_cons_child (not_or.2 ⟨hname.1, hname.2.1⟩) hname.2.2.1 (Nat.not_lt.2 hbytes) hchild
      hlink]
    rfl
  rw [hresolve, if_neg hnul, if_neg (Nat.not_le.2 hfits), follow_of_walk_done hwalk]

/-! ### Nothing new -/

/-- `P` holds everywhere in the node here and in those above. -/
def EverywhereAt (P : Node → Prop) (p : Place) : Prop :=
  p.here.Everywhere P ∧ ∀ node ∈ p.above, node.Everywhere P

variable {P : Node → Prop}

/-- What holds everywhere in sight of a place holds in sight of the place above, which sees no
more than was in sight before. -/
theorem EverywhereAt.up (h : EverywhereAt P p) : EverywhereAt P p.up := by
  obtain ⟨here, above⟩ := p
  cases above with
  | nil => exact h
  | cons parent above => exact ⟨h.2 parent List.mem_cons_self, fun node hnode =>
      h.2 node (List.mem_cons_of_mem parent hnode)⟩

/-- What holds everywhere in sight of a place holds in sight of each child, with the place
itself now above. -/
theorem EverywhereAt.down (h : EverywhereAt P p) (hnode : node.Everywhere P) :
    EverywhereAt P (p.down node) :=
  ⟨hnode, List.forall_mem_cons.2 ⟨h.1, h.2⟩⟩

/-- `P` holds everywhere where a walk comes to rest. -/
def HaltsEverywhere (P : Node → Prop) : Except FileError Halt → Prop
  | .error _ => True
  | .ok (.done node) => node.Everywhere P
  | .ok (.link p _ _) => EverywhereAt P p

/-- A walk stays where `P` holds everywhere: it goes down to children and up to parents, and
both are in sight. -/
theorem walk_everywhere (h : EverywhereAt P p) (pieces : List Bytes) :
    HaltsEverywhere P (walk p pieces) := by
  fun_induction walk p pieces with
  | case1 p => exact h.1
  | case2 p piece rest entries _ _ ih => exact ih h
  | case3 p rest entries _ _ ih => exact ih h.up
  | case4 => trivial
  | case5 => trivial
  | case6 => exact h
  | case7 p piece rest entries _ _ _ _ node _ hchild ih =>
    exact ih (h.down (h.1.of_child? hchild))
  | case8 => trivial

/-- **What holds everywhere in a tree holds where a path leads,** through whatever links. -/
theorem follow_everywhere (htop : top.Everywhere P) (h : EverywhereAt P p)
    (hnode : follow top links p pieces = .ok node) : node.Everywhere P := by
  fun_induction follow top links p pieces with
  | case1 => cases hnode
  | case2 links p pieces node' hwalk =>
    have hhalt := walk_everywhere h pieces
    rw [hwalk] at hhalt
    exact Except.ok.inj hnode ▸ hhalt
  | case3 => cases hnode
  | case4 p pieces p' target rest hwalk links ih =>
    have hhalt := walk_everywhere h pieces
    rw [hwalk] at hhalt
    refine ih ?_ hnode
    split
    · exact ⟨htop, fun _ hmem => absurd hmem List.not_mem_nil⟩
    · exact hhalt

/-- The working directory is the node at its place; one that is not there is taken to
be empty. -/
theorem workingPlace_here (t : FileTree) :
    t.workingPlace.here = (t.top.at? t.workingDirectory).getD (.directory []) := by
  have step (names : List Bytes) (p : Place) :
      (names.foldl (fun p name => p.down ((p.here.child? name).getD (.directory []))) p).here =
        (p.here.at? names).getD (.directory []) := by
    induction names generalizing p with
    | nil => rw [List.foldl_nil, at?_nil, Option.getD_some]
    | cons name names ih =>
      rw [List.foldl_cons, ih, at?_cons]
      cases p.here.child? name with
      | some child => rfl
      | none =>
        -- Below an empty directory there is nothing but the directory itself.
        cases names with
        | nil => rfl
        | cons other names => rfl
  exact step t.workingDirectory ⟨t.top, []⟩

/-- What holds everywhere in a tree holds where relative paths begin; where there is no such
place, an empty directory stands for it. -/
theorem everywhereAt_workingPlace {t : FileTree} (htop : t.top.Everywhere P)
    (hempty : P (.directory [])) : EverywhereAt P t.workingPlace := by
  have step (names : List Bytes) (p : Place) (h : EverywhereAt P p) : EverywhereAt P
      (names.foldl (fun p name => p.down ((p.here.child? name).getD (.directory []))) p) := by
    induction names generalizing p with
    | nil => exact h
    | cons name names ih =>
      refine ih _ (h.down ?_)
      cases hchild : p.here.child? name with
      | some child => exact h.1.of_child? hchild
      | none => exact everywhere_empty hempty
  exact step t.workingDirectory _ ⟨htop, fun _ hmem => absurd hmem List.not_mem_nil⟩

/-- **Where a path leads, there is nothing that is not in the tree.**  So what holds everywhere
in a tree, as that each name is there once, holds of what a path leads to. -/
theorem resolve_everywhere {t : FileTree} {path : Path} (htop : t.top.Everywhere P)
    (hempty : P (.directory [])) (h : t.resolve path = .ok node) : node.Everywhere P := by
  refine follow_everywhere htop ?_ (resolve_eq_ok_iff.1 h).2
  unfold startOf
  split
  · exact ⟨htop, fun _ hmem => absurd hmem List.not_mem_nil⟩
  · exact everywhereAt_workingPlace htop hempty

/-- What a path of a well-formed tree leads to is well-formed: its names are names, and each is
there once. -/
theorem wellFormed_of_resolve {t : FileTree} {path : Path} (htop : t.top.WellFormed)
    (h : t.resolve path = .ok node) : node.WellFormed :=
  resolve_everywhere htop (by decide) h

/-- The names under a path are those in the node it leads to, so two paths that lead to one node
have the same names under them. -/
theorem names_of_resolve {t : FileTree} {path : Path} (h : t.resolve path = .ok node) :
    t.fileSystem.names path = node.names := by
  simp only [fileSystem, h]
  rfl

/-- **A well-formed tree lists names, and each once,** under every path.  This is all that a run
needs to know of how a directory is listed. -/
theorem properlyNamed {t : FileTree} (htop : t.top.WellFormed) (path : Path) :
    t.fileSystem.ProperlyNamed path := by
  unfold FileSystem.ProperlyNamed
  simp only [fileSystem]
  split
  · next node hnode => exact (wellFormed_of_resolve htop hnode).here
  · exact ⟨List.nodup_nil, fun _ hmem => absurd hmem List.not_mem_nil⟩

end FileTree

end DocLint
