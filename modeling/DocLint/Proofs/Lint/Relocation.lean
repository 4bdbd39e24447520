/-
# Where a root leads is all that matters

`run_lint`, SPEC_FULL.md §4.4 and §10.4: what the root has a part in.

Two runs whose roots lead to directories with the same names, and with the same content
behind each name (`SameEntries`), report the same, path by path (`run_reroot`).  A root
may be a link, its entries may be links, and the two may pass different ones, dangling
and looping ones included.  A directory is compared by the name under which it stands,
not by that of a link's target.

Content is not quite all.  A skill's document is looked for at the root joined with two
names, and the joined path must be shorter than 4096 bytes.  Of two spellings of one
root the longer can lead to every skill and to none of their documents
(`not_forall_sameReports`).  So the runs over skills must agree, for each of these
paths, on whether it fits.
-/

import DocLint.Proofs.Lint.Locality
import DocLint.Proofs.Lint.UniqueNames

namespace DocLint

open Diagnostic

namespace Lint

variable {t u : FileTree} {settings : Settings} {kind : Kind} {r s : Path} {name : Bytes}

/-- The same stands behind `name` under `r` and under `s`: content without links, or
nothing. -/
def SameEntry (t : FileTree) (r : Path) (u : FileTree) (s : Path) (name : Bytes) : Prop :=
  (∃ a b, t.resolve (Path.join r name) = .ok a ∧ u.resolve (Path.join s name) = .ok b ∧
    a.SameContent b ∧ a.LinkFree) ∨
  (¬ t.Resolves (Path.join r name) ∧ ¬ u.Resolves (Path.join s name))

/-- Both roots lead to directories, with the same names and the same behind each. -/
structure SameEntries (t : FileTree) (r : Path) (u : FileTree) (s : Path) : Prop where
  isDirectoryAt : t.IsDirectoryAt r
  isDirectoryAt' : u.IsDirectoryAt s
  mem_names_iff : ∀ name, name ∈ t.fileSystem.names r ↔ name ∈ u.fileSystem.names s
  entry : ∀ name ∈ t.fileSystem.names r, SameEntry t r u s name

/-- The path of each skill's document fits under `r` and under `s`, or under neither. -/
def DocumentsFitAlike (t : FileTree) (r s : Path) (settings : Settings) (kind : Kind) : Prop :=
  kind = .skill → ∀ name, t.IsSubdirectory r name →
    (FileTree.Fits (Path.join (Path.join r name) settings.skills.documentName) ↔
      FileTree.Fits (Path.join (Path.join s name) settings.skills.documentName))

/-- The runs over `r` and over `s` have the same reports, with `s` for `r` in front of
the names. -/
def SameReports (t : FileTree) (r : Path) (u : FileTree) (s : Path) (settings : Settings)
    (kind : Kind) : Prop :=
  ∀ timestamp timestamp', ∃ report report',
    run t.fileSystem settings kind r timestamp = .ok report ∧
    run u.fileSystem settings kind s timestamp' = .ok report' ∧
    report'.documentsChecked = report.documentsChecked ∧
    report'.diagnostics = report.diagnostics.map (mapPath (Path.reroot r s))

/-- What is the same is answered alike, be it a file, a directory or nothing. -/
theorem SameEntry.alikeAt (h : SameEntry t r u s name) :
    t.fileSystem.AlikeAt (Path.join r name) u.fileSystem (Path.join s name) := by
  rcases h with ⟨a, b, ha, hb, hab, -⟩ | ⟨ha, hb⟩
  · exact FileTree.alikeAt_of_face_eq ha hb (hab.face_eq trivial)
  · exact FileTree.alikeAt_of_not_resolves ha hb

/-- In what is the same a further name is answered alike, where both paths fit.  For this its
content must be free of links, which could lead elsewhere from another place. -/
theorem SameEntry.alikeAt_join {file : Bytes} (h : SameEntry t r u s name)
    (hfile : Path.IsName file) (hresolves : t.Resolves (Path.join r name))
    (hfits : FileTree.Fits (Path.join (Path.join r name) file) ↔
      FileTree.Fits (Path.join (Path.join s name) file)) :
    t.fileSystem.AlikeAt (Path.join (Path.join r name) file) u.fileSystem
      (Path.join (Path.join s name) file) := by
  rcases h with ⟨a, b, ha, hb, hab, hlinks⟩ | ⟨hnot, -⟩
  · exact FileTree.alikeAt_of_agree trivial
      (FileTree.resolve_join_agree ha hb hab hlinks hfile hfits)
  · exact absurd hresolves hnot

/-- **The same entries are alike under both roots.**  All that a run asks of an entry is
answered by its content, or is a document in it. -/
theorem alikeUnder_of_sameEntries (h : SameEntries t r u s)
    (hfile : Path.IsName settings.skills.documentName)
    (hfits : DocumentsFitAlike t r s settings kind) (hmem : name ∈ t.fileSystem.names r) :
    AlikeUnder t.fileSystem r u.fileSystem s settings kind name := by
  refine ⟨(h.entry name hmem).alikeAt, fun hdocument => ?_⟩
  cases kind with
  | prompt => exact (h.entry name hmem).alikeAt
  | skill =>
    have hdirectory : t.IsDirectoryAt (Path.join r name) := FileTree.isDirectory_iff.1 hdocument
    exact (h.entry name hmem).alikeAt_join hfile (.inr hdirectory)
      (hfits rfl name ⟨hmem, hdirectory⟩)

/-- **A run depends on what its root leads to.**  The same entries are reported alike
under both roots, skills as long as the paths of their documents fit under both or under
neither. -/
theorem run_reroot (htop : t.top.WellFormed) (htop' : u.top.WellFormed)
    (hfile : Path.IsName settings.skills.documentName) (h : SameEntries t r u s)
    (hfits : DocumentsFitAlike t r s settings kind) : SameReports t r u s settings kind := by
  intro timestamp timestamp'
  have hproper := FileTree.properlyNamed htop r
  have hproper' := FileTree.properlyNamed htop' s
  -- No name is left out here, unlike where trees differ at one.
  have hnames (name : Bytes) (_ : true) := h.mem_names_iff name
  have halike (name : Bytes) (hmem : name ∈ t.fileSystem.names r) (_ : true) :=
    alikeUnder_of_sameEntries h hfile hfits hmem
  have hlist := documentNames_filter_eq hproper hproper' hnames halike
  have hfound := found_reroot hproper hproper' hnames halike hfile
  simp only [List.filter_true] at hlist hfound
  refine ⟨_, _, run_eq_of_isDirectory (FileTree.isDirectory_iff.2 h.isDirectoryAt) timestamp,
    run_eq_of_isDirectory (FileTree.isDirectory_iff.2 h.isDirectoryAt') timestamp', ?_, ?_⟩
  · rw [Report.new, Report.new, hlist]
  · rw [Report.new, Report.new, hfound, sortBySeverity_map_mapPath]

/-- A skill that lacks nothing where it is called `a`. -/
def skillA : Node := .directory [("SKILL.md", .file (documentNamed "a"))]

theorem linkFree_skillA : skillA.LinkFree := Node.everywhere_of_nodes (by decide)

/-- A directory of skills with one of them. -/
def plainSkills : FileTree := ⟨.directory [("s", .directory [("a", skillA)])], []⟩

theorem wellFormed_plainSkills : plainSkills.top.WellFormed := Node.everywhere_of_nodes (by decide)

/-- The same through links: `l` is a link to the directory, and `a` one to a directory
of another name. -/
def linkedSkills : FileTree :=
  ⟨.directory [("l", .link "d"), ("d", .directory [("a", .link "../x")]), ("x", skillA)], []⟩

/-- The skill is reported through the links as it is without them. -/
theorem run_reroot_linkedSkills :
    SameReports plainSkills "s" linkedSkills "l" {} .skill := by
  have hentries : SameEntries plainSkills "s" linkedSkills "l" := by
    refine ⟨⟨_, rfl⟩, ⟨_, rfl⟩, fun _ => Iff.rfl, fun name hname => ?_⟩
    obtain rfl : name = "a" := List.mem_singleton.1 hname
    exact .inl ⟨skillA, skillA, rfl, rfl, fun _ _ => rfl, linkFree_skillA⟩
  refine run_reroot wellFormed_plainSkills (Node.everywhere_of_nodes (by decide)) (by decide)
    hentries fun _ name hname => ?_
  obtain rfl : name = "a" := List.mem_singleton.1 hname.1
  exact iff_of_true (by unfold FileTree.Fits; decide) (by unfold FileTree.Fits; decide)

/-! ### A path that is too long -/

/-- The directory `s`, written with 4090 slashes at the end. -/
def longRoot : Path := 0x73 :: List.replicate 4090 Path.slash

theorem pieces_replicate (k : Nat) :
    Path.pieces (List.replicate k Path.slash) = List.replicate (k + 1) [] := by
  induction k with
  | zero => rfl
  | succ k ih =>
    rw [Path.pieces] at ih ⊢
    rw [List.replicate_succ, Text.splitOn_self_cons, ih, ← List.replicate_succ]

/-- Slashes lead nowhere else: between two of them is an empty piece, which stays where it is.
-/
theorem walk_replicate {p : Place} {entries : List (Bytes × Node)}
    (h : p.here = .directory entries) (k : Nat) :
    FileTree.walk p (List.replicate k []) = .ok (.done p.here) := by
  induction k with
  | zero => rw [List.replicate_zero, FileTree.walk]
  | succ k ih => rw [List.replicate_succ, FileTree.walk_cons_directory h, if_pos (.inl rfl), ih]

theorem length_longRoot : longRoot.length = 4091 := by
  rw [longRoot, List.length_cons, List.length_replicate]

/-- A name is joined to a root that ends in a slash without another. -/
theorem join_longRoot : Path.join longRoot "a" = longRoot ++ [0x61] := by
  have hlast : longRoot.getLast? = some Path.slash := by
    rw [longRoot, List.getLast?_cons, List.getLast?_replicate]
    rfl
  rw [Path.join, if_neg (by decide), if_pos (.inr hlast)]
  rfl

/-- The long root leads to the directory: its slashes make it long and lead nowhere. -/
theorem resolve_longRoot : plainSkills.resolve longRoot = .ok (.directory [("a", skillA)]) := by
  have hpieces : Path.pieces longRoot = [0x73] :: List.replicate 4090 [] := by
    rw [Path.pieces, longRoot]
    exact Text.splitOn_cons_of_ne (by decide) (pieces_replicate 4090)
  have hchild : (plainSkills.startOf longRoot).here.child? [0x73] =
      some (.directory [("a", skillA)]) := by rfl
  refine FileTree.resolve_eq_ok_iff.2 ⟨⟨?_, List.cons_ne_nil _ _, ?_⟩, ?_⟩
  · rw [longRoot, List.mem_cons, List.mem_replicate]
    decide
  · rw [FileTree.Fits, length_longRoot]
    decide
  · rw [hpieces]
    refine FileTree.follow_of_walk_done ?_ _ _
    rw [FileTree.walk_cons_child (by decide) (by decide) (by decide) hchild
      fun _ => Node.noConfusion]
    exact walk_replicate rfl 4090

/-- The long root leads to the skill, since the path to it just fits. -/
theorem resolve_join_longRoot : plainSkills.resolve (Path.join longRoot "a") = .ok skillA := by
  have hname : Path.IsName "a" := by decide
  obtain ⟨links, p, hhere, hjoin⟩ := FileTree.exists_resolve_join resolve_longRoot hname
  have hchild : p.here.child? "a" = some skillA := by
    rw [hhere]
    rfl
  have hfits : ¬ FileTree.maxPathBytes ≤ (Path.join longRoot "a").length := by
    rw [join_longRoot, List.length_append, length_longRoot]
    decide
  rw [hjoin, if_neg (by decide), if_neg hfits]
  refine FileTree.follow_of_walk_done ?_ _ _
  rw [FileTree.walk_cons_child (by decide) (by decide) (by decide) hchild
    fun _ => Node.noConfusion, FileTree.walk]
  rfl

/-- The long root does not lead to the document of the skill: the path to that is longer than a
path may be. -/
theorem not_resolves_document_longRoot :
    ¬ plainSkills.Resolves
      (Path.join (Path.join longRoot "a") ({} : Settings).skills.documentName) := by
  have hlong : ¬ FileTree.Fits (Path.join (Path.join longRoot "a") "SKILL.md") := by
    rw [FileTree.Fits, Path.join_join (by decide) (by decide), join_longRoot,
      List.length_append, List.length_append, length_longRoot]
    decide
  rintro (⟨content, h⟩ | ⟨entries, h⟩)
  · exact hlong (FileTree.resolve_eq_ok_iff.1 h).1.2.2
  · exact hlong (FileTree.resolve_eq_ok_iff.1 h).1.2.2

/-- The long spelling leads to the same directory as the short one, so both have the same
entries. -/
theorem sameEntries_longRoot : SameEntries plainSkills "s" plainSkills longRoot := by
  have hnames : plainSkills.fileSystem.names longRoot = ["a"] :=
    FileTree.names_of_resolve resolve_longRoot
  refine ⟨⟨_, rfl⟩, ⟨_, resolve_longRoot⟩, fun name => by rw [hnames]; rfl, fun name hname => ?_⟩
  obtain rfl : name = "a" := List.mem_singleton.1 hname
  exact .inl ⟨skillA, skillA, rfl, resolve_join_longRoot, fun _ _ => rfl, linkFree_skillA⟩

/-- Under the long root something is found, as the document is missed; under the short one
nothing is. -/
theorem exists_mem_validate_longRoot :
    ∃ d, ∃ target ∈ discover plainSkills.fileSystem {} .skill longRoot,
      d ∈ validate plainSkills.fileSystem {} .skill target := by
  have hnames : ("a" : Bytes) ∈ plainSkills.fileSystem.names longRoot :=
    (sameEntries_longRoot.mem_names_iff "a").1 List.mem_cons_self
  have hdirectory : plainSkills.fileSystem.isDirectory (Path.join longRoot "a") :=
    FileTree.isDirectory_iff.2 ⟨_, resolve_join_longRoot⟩
  have htarget : Path.join longRoot "a" ∈ discover plainSkills.fileSystem {} .skill longRoot := by
    rw [discover_eq_map]
    exact List.mem_map_of_mem (mem_documentNames_iff.2 ⟨hnames, hdirectory⟩)
  have hsome : validate plainSkills.fileSystem {} .skill (Path.join longRoot "a") ≠ [] := by
    have hnowhere := mt FileTree.leadsSomewhere_iff.1 not_resolves_document_longRoot
    rw [validate, Skill.check_of_not_leadsSomewhere hnowhere]
    exact List.cons_ne_nil _ _
  obtain ⟨d, hd⟩ := List.exists_mem_of_ne_nil _ hsome
  exact ⟨d, _, htarget, hd⟩

/-- **Not every run with the same entries reports the same.**  From the long root the
path of the document has 4101 bytes, so that a skill without faults is reported to have
no document. -/
theorem not_forall_sameReports :
    ¬ ∀ (t u : FileTree) (settings : Settings) (kind : Kind) (r s : Path),
      t.top.WellFormed → u.top.WellFormed → Path.IsName settings.skills.documentName →
        SameEntries t r u s → SameReports t r u s settings kind := by
  intro h
  obtain ⟨report, report', hrun, hrun', -, hdiagnostics⟩ :=
    h plainSkills plainSkills {} .skill "s" longRoot wellFormed_plainSkills wellFormed_plainSkills
      (by decide) sameEntries_longRoot [] []
  have hclean : run plainSkills.fileSystem {} .skill "s" [] = .ok ⟨.skill, "s", [], 1, []⟩ := by
    rfl
  obtain rfl := Except.ok.inj (hrun.symm.trans hclean)
  obtain ⟨d, hfound⟩ := exists_mem_validate_longRoot
  have hmem := (mem_diagnostics_of_run hrun').2 hfound
  rw [hdiagnostics] at hmem
  exact absurd hmem List.not_mem_nil

end Lint

end DocLint
