/-
# What a path does not pass does not matter

What `run_lint` cannot tell apart, SPEC_FULL.md §4.4.

Two trees are compared place by place (`Node.AgreeOn`), so that neither the order of
entries nor what stands elsewhere has a part in it.

| the paths | lead to the same if |
| --- | --- |
| one path without `..`, in two trees without links | the trees agree on its way (`resolve_agree`) |
| a name joined to paths that lead to the same, links or not | both fit (`resolve_join_agree`) |

What leads to the same is answered alike (`AlikeAt`), and a run asks nothing else.
-/

import DocLint.Proofs.FileTree.Answers
import DocLint.Proofs.FileTree.Walks

namespace DocLint

/-- What is asked of `p` and of `q` has one answer. -/
structure FileSystem.AlikeAt (fs : FileSystem) (p : Path) (gs : FileSystem) (q : Path) :
    Prop where
  kindAt_eq : fs.kindAt p = gs.kindAt q
  read_eq : fs.leadsSomewhere p → fs.read p = gs.read q

theorem FileSystem.AlikeAt.leadsSomewhere_eq {fs gs : FileSystem} {p q : Path}
    (h : fs.AlikeAt p gs q) : fs.leadsSomewhere p = gs.leadsSomewhere q :=
  congrArg Option.isSome h.kindAt_eq

/-- Paths that look alike and lead somewhere are read as the same text, or fail alike. -/
theorem FileSystem.AlikeAt.readText_eq {fs gs : FileSystem} {p q : Path} (h : fs.AlikeAt p gs q)
    (hsomewhere : fs.leadsSomewhere p) : fs.readText p = gs.readText q :=
  congrArg (·.map Utf8.decodeLossy) (h.read_eq hsomewhere)

namespace FileTree

open Node

/-- The place that a path names, links and `..` left aside. -/
def placeOf (t : FileTree) (path : Path) : List Bytes :=
  (if Path.isAbsolute path then [] else t.workingDirectory) ++ Path.components path

variable {S : List Bytes → Prop} {p p' : Place} {pieces : List Bytes}

/-- `S` holds of all places on the way to one of its places. -/
def OnTheWay (S : List Bytes → Prop) : Prop := ∀ place rest, S (place ++ rest) → S place

/-- **Two walks without links and `..` that find the same on their way end alike:** in
one error, or at nodes that agree below. -/
theorem walk_agree (hS : OnTheWay S) (hagree : p.here.AgreeOn S p'.here) (hp : p.here.LinkFree)
    (hp' : p'.here.LinkFree) (hups : Path.dotDot ∉ pieces) (hmem : S (Path.named pieces)) :
    (∃ e, walk p pieces = .error e ∧ walk p' pieces = .error e) ∨
      ∃ a b, walk p pieces = .ok (.done a) ∧ walk p' pieces = .ok (.done b) ∧
        a.AgreeOn (fun rest => S (Path.named pieces ++ rest)) b := by
  induction pieces generalizing p p' S with
  | nil => exact .inr ⟨p.here, p'.here, rfl, rfl, hagree⟩
  | cons piece pieces ih =>
    have hface := hagree.face_eq (hS [] _ hmem)
    obtain ⟨hpiece, hrest⟩ := not_or.1 (fun e => hups (List.mem_cons.2 e))
    by_cases hdirectory : p.here.face = .directory
    · obtain ⟨entries, hhere⟩ := exists_entries_of_face hdirectory
      obtain ⟨entries', hhere'⟩ := exists_entries_of_face (hface ▸ hdirectory)
      by_cases hstay : piece = [] ∨ piece = Path.dot
      · rw [walk_cons_directory hhere, walk_cons_directory hhere', if_pos hstay, if_pos hstay]
        rw [Path.named_cons_of_stays hstay] at hmem ⊢
        exact ih hS hagree hp hp' hrest hmem
      · rw [Path.named_cons_of_isNamed hstay] at hmem ⊢
        by_cases hlong : maxNameBytes < piece.length
        · refine .inl ⟨.nameTooLong, ?_, ?_⟩
          · rw [walk_cons_directory hhere, if_neg hstay, if_neg (Ne.symm hpiece), if_pos hlong]
          · rw [walk_cons_directory hhere', if_neg hstay, if_neg (Ne.symm hpiece), if_pos hlong]
        · rcases hagree.at?_cases (hS [piece] _ hmem) with ⟨ha, hb⟩ | ⟨a, b, ha, hb, hab⟩
          · rw [at?_singleton] at ha hb
            refine .inl ⟨.notFound, ?_, ?_⟩
            · rw [walk_cons_directory hhere, if_neg hstay, if_neg (Ne.symm hpiece), if_neg hlong,
                ha]
            · rw [walk_cons_directory hhere', if_neg hstay, if_neg (Ne.symm hpiece), if_neg hlong,
                hb]
          · rw [at?_singleton] at ha hb
            have hlinks : a.LinkFree := hp.of_child? ha
            have hlinks' : b.LinkFree := hp'.of_child? hb
            rw [walk_cons_child hstay (Ne.symm hpiece) hlong ha hlinks.ne_link,
              walk_cons_child hstay (Ne.symm hpiece) hlong hb hlinks'.ne_link]
            exact ih (S := fun rest => S (piece :: rest)) (fun place => hS (piece :: place)) hab
              hlinks hlinks' hrest hmem
    · refine .inl ⟨.notADirectory, walk_cons_of_face_ne hdirectory _ _, ?_⟩
      exact walk_cons_of_face_ne (hface ▸ hdirectory) _ _

/-- **Paths into trees that agree along the way come to the same,** be it an error or two nodes
that agree on what lies further on.  By induction on the pieces; without links and `..` each
piece leads one name down. -/
theorem follow_agree (top : Node) (links : Nat) (top' : Node) (links' : Nat) (hS : OnTheWay S)
    (hagree : p.here.AgreeOn S p'.here) (hp : p.here.LinkFree) (hp' : p'.here.LinkFree)
    (hups : Path.dotDot ∉ pieces) (hmem : S (Path.named pieces)) :
    (∃ e, follow top links p pieces = .error e ∧ follow top' links' p' pieces = .error e) ∨
      ∃ a b, follow top links p pieces = .ok a ∧ follow top' links' p' pieces = .ok b ∧
        a.AgreeOn (fun rest => S (Path.named pieces ++ rest)) b := by
  rcases walk_agree hS hagree hp hp' hups hmem with ⟨e, h, h'⟩ | ⟨a, b, h, h', hab⟩
  · exact .inl ⟨e, follow_of_walk_error h top links, follow_of_walk_error h' top' links'⟩
  · exact .inr ⟨a, b, follow_of_walk_done h top links, follow_of_walk_done h' top' links', hab⟩

/-- Trees that agree on the way to the place of a path agree at its start, be that the top or
the working directory. -/
theorem startOf_agree {t u : FileTree} {path : Path} (hS : OnTheWay S)
    (hworking : t.workingDirectory = u.workingDirectory) (htop : t.top.AgreeOn S u.top)
    (hmem : S (t.placeOf path)) :
    (t.startOf path).here.AgreeOn
      (fun rest => S ((if Path.isAbsolute path then [] else t.workingDirectory) ++ rest))
      (u.startOf path).here := by
  unfold startOf
  split
  · exact htop
  · next habsolute =>
    rw [workingPlace_here, workingPlace_here, ← hworking]
    rw [placeOf, if_neg habsolute] at hmem
    rcases htop.at?_cases (hS _ _ hmem) with ⟨ha, hb⟩ | ⟨a, b, ha, hb, hab⟩
    · rw [ha, hb]
      exact AgreeOn.refl _ _
    · rw [ha, hb]
      exact hab

/-- In a tree without links no path starts below one, be it absolute or relative to the working
directory. -/
theorem linkFree_startOf {t : FileTree} (ht : t.top.LinkFree) (path : Path) :
    (t.startOf path).here.LinkFree := by
  unfold startOf
  split
  · exact ht
  · exact (everywhereAt_workingPlace ht fun _ => Node.noConfusion).1

/-- **What a path does not pass does not matter:** of two trees without links, a path
without `..` leads to the same in both if they agree on its way. -/
theorem resolve_agree {t u : FileTree} {path : Path} (hS : OnTheWay S)
    (hworking : t.workingDirectory = u.workingDirectory) (htop : t.top.AgreeOn S u.top)
    (ht : t.top.LinkFree) (hu : u.top.LinkFree) (hups : Path.dotDot ∉ Path.pieces path)
    (hmem : S (t.placeOf path)) :
    (∃ e, t.resolve path = .error e ∧ u.resolve path = .error e) ∨
      ∃ a b, t.resolve path = .ok a ∧ u.resolve path = .ok b ∧
        a.AgreeOn (fun rest => S (t.placeOf path ++ rest)) b := by
  rw [resolve_eq, resolve_eq u]
  split
  · exact .inl ⟨_, rfl, rfl⟩
  · split
    · exact .inl ⟨_, rfl, rfl⟩
    · split
      · exact .inl ⟨_, rfl, rfl⟩
      · have hagree := startOf_agree hS hworking htop hmem
        have hfollow := follow_agree t.top maxLinks u.top maxLinks (S := fun rest =>
          S ((if Path.isAbsolute path then [] else t.workingDirectory) ++ rest)) ?_ hagree
          (linkFree_startOf ht path) (linkFree_startOf hu path) hups hmem
        · simpa only [placeOf, Path.components, List.append_assoc] using hfollow
        · intro place rest hplace
          rw [← List.append_assoc] at hplace
          exact hS _ rest hplace

/-! ### A name joined to two paths -/

/-- **A name joined to paths that lead to the same leads to the same,** if both paths
fit.  Nothing but the content at the paths has a part in it. -/
theorem resolve_join_agree {t u : FileTree} {path path' name : Bytes} {a b : Node}
    (h : t.resolve path = .ok a) (h' : u.resolve path' = .ok b) (hab : a.SameContent b)
    (ha : a.LinkFree) (hname : Path.IsName name)
    (hfits : Fits (Path.join path name) ↔ Fits (Path.join path' name)) :
    (∃ e, t.resolve (Path.join path name) = .error e ∧
        u.resolve (Path.join path' name) = .error e) ∨
      ∃ c d, t.resolve (Path.join path name) = .ok c ∧
        u.resolve (Path.join path' name) = .ok d ∧ c.SameContent d := by
  obtain ⟨links, p, rfl, hjoin⟩ := exists_resolve_join h hname
  obtain ⟨links', p', rfl, hjoin'⟩ := exists_resolve_join h' hname
  rw [hjoin, hjoin']
  split
  · exact .inl ⟨_, rfl, rfl⟩
  · by_cases hlong : maxPathBytes ≤ (Path.join path name).length
    · rw [if_pos hlong, if_pos (Nat.not_lt.1 fun e => Nat.not_lt.2 hlong (hfits.2 e))]
      exact .inl ⟨_, rfl, rfl⟩
    · rw [if_neg hlong, if_neg (Nat.not_le.2 (hfits.1 (Nat.not_le.1 hlong)))]
      have hups : Path.dotDot ∉ [name] := fun e => hname.2.2.1 (List.mem_singleton.1 e).symm
      exact follow_agree t.top links u.top links' (S := fun _ => True) (fun _ _ _ => trivial) hab ha
        (ha.of_sameContent hab) hups trivial

/-! ### Answers -/

/-- Paths look alike where they lead to nodes with the same face: of a directory the names are
asked elsewhere, of a file the bytes are in its face. -/
theorem alikeAt_of_face_eq {t u : FileTree} {path path' : Path} {a b : Node}
    (h : t.resolve path = .ok a) (h' : u.resolve path' = .ok b) (hface : a.face = b.face) :
    t.fileSystem.AlikeAt path u.fileSystem path' := by
  cases a <;> cases b <;> cases hface <;>
    exact ⟨by simp only [fileSystem, h, h'], fun _ => by simp only [fileSystem, h, h']⟩

/-- Paths that lead nowhere look alike, whatever it is that stops them: there is no kind to
tell, and nothing is read. -/
theorem alikeAt_of_not_resolves {t u : FileTree} {path path' : Path} (h : ¬ t.Resolves path)
    (h' : ¬ u.Resolves path') : t.fileSystem.AlikeAt path u.fileSystem path' := by
  rw [← leadsSomewhere_iff] at h h'
  have hnone : t.fileSystem.kindAt path = none := Option.not_isSome_iff_eq_none.1 h
  have hnone' : u.fileSystem.kindAt path' = none := Option.not_isSome_iff_eq_none.1 h'
  exact ⟨hnone.trans hnone'.symm, fun hsomewhere => absurd hsomewhere h⟩

/-- **Paths that lead to the same are answered alike,** also if both lead nowhere, since why
they do is not asked. -/
theorem alikeAt_of_agree {t u : FileTree} {path path' : Path} (hS : S [])
    (h : (∃ e, t.resolve path = .error e ∧ u.resolve path' = .error e) ∨
      ∃ a b, t.resolve path = .ok a ∧ u.resolve path' = .ok b ∧ a.AgreeOn S b) :
    t.fileSystem.AlikeAt path u.fileSystem path' := by
  rcases h with ⟨e, h, h'⟩ | ⟨a, b, h, h', hab⟩
  · refine alikeAt_of_not_resolves ?_ ?_
    · rintro (⟨content, hfile⟩ | ⟨entries, hdirectory⟩)
      · cases h.symm.trans hfile
      · cases h.symm.trans hdirectory
    · rintro (⟨content, hfile⟩ | ⟨entries, hdirectory⟩)
      · cases h'.symm.trans hfile
      · cases h'.symm.trans hdirectory
  · exact alikeAt_of_face_eq h h' (hab.face_eq hS)

end FileTree

end DocLint
