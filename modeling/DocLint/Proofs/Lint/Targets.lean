/-
# The targets of a run

`discover`, SPEC_FULL.md §4.4 and §10.4.

What discovery returns for a root, read off the tree (`discoversExactly`).

| root | prompts | skills |
| --- | --- | --- |
| a directory | its names that lead to a file and end with the suffix | its names that lead to a directory |
| a file, or nothing | none | none |

Names lead where they lead through links, and a link that dangles or loops leads nowhere.
Each target is the root as it is written with the name joined to it; its last name is the
name, whether or not the root ends with a slash or with `.`.  The names ascend strictly in
the order of their bytes, which leaves nothing to the order in which the file system lists
them.
-/

import DocLint.Proofs.Lint.Locality

namespace DocLint

namespace Lint

/-- `paths` are the paths under `root` of those of the names `listed` that `P` holds of, in
the order of their bytes. -/
structure ListsExactly (root : Path) (listed : List Bytes) (P : Bytes → Prop)
    (paths : List Path) : Prop where
  by_name : ∃ names : List Bytes, paths = names.map (Path.join root) ∧
    names.Pairwise (fun a b => a < b) ∧
    (∀ name, name ∈ names ↔ name ∈ listed ∧ P name) ∧
    ∀ name ∈ names, Path.lastName? (Path.join root name) = some name
  nodup : paths.Nodup

/-- Discovery under `root` returns what the tree says, and nothing else has a part in it. -/
structure DiscoversExactly (t : FileTree) (settings : Settings) (root : Path) : Prop where
  /-- Prompts are the names of a directory that lead to a file and end with the suffix. -/
  prompts : ∀ entries, t.resolve root = .ok (.directory entries) →
    ListsExactly root (entries.map (·.1))
      (fun name => (∃ content, t.IsFileAt (Path.join root name) content) ∧
        settings.prompts.suffix <:+ Path.display name)
      (discover t.fileSystem settings .prompt root)
  /-- Skills are the names of a directory that lead to a directory. -/
  skills : ∀ entries, t.resolve root = .ok (.directory entries) →
    ListsExactly root (entries.map (·.1)) (fun name => t.IsDirectoryAt (Path.join root name))
      (discover t.fileSystem settings .skill root)
  /-- An entry that is no link is what its name leads to, if its path can be followed. -/
  entry : ∀ entries name child, t.resolve root = .ok (.directory entries) →
    (name, child) ∈ entries → (∀ target, child ≠ .link target) → 0 ∉ name →
    name.length ≤ FileTree.maxNameBytes → FileTree.Fits (Path.join root name) →
    t.resolve (Path.join root name) = .ok child
  /-- The order in which the names are listed does not matter. -/
  listing : ∀ (gs : FileSystem) (kind : Kind), (gs.names root).Perm (t.fileSystem.names root) →
    (∀ path, gs.kindAt path = t.fileSystem.kindAt path) →
    discover gs settings kind root = discover t.fileSystem settings kind root
  /-- No path is a target of both kinds. -/
  apart : ∀ path ∈ discover t.fileSystem settings .prompt root,
    path ∉ discover t.fileSystem settings .skill root
  /-- What is no directory has no targets. -/
  nothing : ¬ t.IsDirectoryAt root → ∀ kind, discover t.fileSystem settings kind root = []

variable {t : FileTree} {fs : FileSystem} {settings : Settings} {kind : Kind} {root : Path}

/-- The names of documents ascend strictly where no name is listed twice: sorted, and no two
alike. -/
theorem pairwise_lt_documentNames (h : fs.ProperlyNamed root) :
    (documentNames fs settings kind root).Pairwise fun a b => a < b := by
  have hnodup : (documentNames fs settings kind root).Pairwise (· ≠ ·) := nodup_documentNames h
  refine (pairwise_documentNames.and hnodup).imp fun ⟨hle, hne⟩ => ?_
  exact hle.resolve_left hne

/-- **Discovery lists the documents exactly.**  No document is left out, nothing else is listed,
and each stands in its place by name. -/
theorem listsExactly_discover (h : fs.ProperlyNamed root) :
    ListsExactly root (fs.names root) (fun name => isDocument fs settings kind (Path.join root name))
      (discover fs settings kind root) := by
  have hname (name : Bytes) (hmem : name ∈ documentNames fs settings kind root) :
      Path.IsName name := isName_of_mem_documentNames h hmem
  refine ⟨⟨_, discover_eq_map, pairwise_lt_documentNames h, fun _ => mem_documentNames_iff,
    fun name hmem => Path.lastName?_join (hname name hmem) root⟩, ?_⟩
  rw [discover_eq_map, List.Nodup, List.pairwise_map]
  refine List.Pairwise.imp_of_mem (fun ha hb hne heq => ?_) (nodup_documentNames h)
  exact hne ((Path.join_right_inj (hname _ ha) (hname _ hb)).1 heq)

/-- The names that are listed may be chosen by any property that they agree on, as by what their
paths lead to. -/
theorem ListsExactly.congr {listed : List Bytes} {P Q : Bytes → Prop} {paths : List Path}
    (h : ListsExactly root listed P paths) (hiff : ∀ name ∈ listed, P name ↔ Q name) :
    ListsExactly root listed Q paths := by
  obtain ⟨⟨names, hpaths, hlt, hmem, hlast⟩, hnodup⟩ := h
  refine ⟨⟨names, hpaths, hlt, fun name => ?_, hlast⟩, hnodup⟩
  rw [hmem, and_congr_right_iff]
  exact hiff name

/-- A name leads to a prompt where it leads to a file and ends with the suffix, which is looked
for in the name as it is printed. -/
theorem isDocument_prompt_iff {name : Bytes} (h : Path.IsName name) :
    isDocument t.fileSystem settings .prompt (Path.join root name) ↔
      (∃ content, t.IsFileAt (Path.join root name) content) ∧
        settings.prompts.suffix <:+ Path.display name := by
  rw [isDocument, Bool.and_eq_true, FileSystem.isFile, beq_iff_eq, FileTree.kindAt_eq_file_iff,
    hasSuffix, Path.lastName?_join h, List.isSuffixOf_iff_suffix]

/-- Without a directory there is nothing to list, and so no document. -/
theorem discover_eq_nil (h : ¬ t.IsDirectoryAt root) :
    discover t.fileSystem settings kind root = [] := by
  have hnames : t.fileSystem.names root = [] := by
    simp only [FileTree.fileSystem]
    split
    · next node hnode =>
      cases node with
      | directory entries => exact absurd ⟨entries, hnode⟩ h
      | file content => rfl
      | link target => rfl
    · rfl
  rw [discover_eq_filter, children, hnames]
  rfl

/-- What leads to a file leads to no directory, so no path is a document of both kinds. -/
theorem not_isDocument_skill_of_prompt {path : Path} (h : isDocument fs settings .prompt path) :
    ¬ isDocument fs settings .skill path := by
  have hfile := (Bool.and_eq_true_iff.1 h).1
  rw [FileSystem.isFile, beq_iff_eq] at hfile
  rw [isDocument, FileSystem.isDirectory, hfile]
  decide

/-- **What discovery returns,** of a tree whose directories have each name once: the prompts and
the skills under a root, in the order of their names' bytes, in whichever order they are listed.
-/
theorem discoversExactly (htop : t.top.WellFormed) (settings : Settings) (root : Path) :
    DiscoversExactly t settings root := by
  have hproper := FileTree.properlyNamed htop root
  have hnames {entries : List (Bytes × Node)} (hroot : t.resolve root = .ok (.directory entries)) :
      t.fileSystem.names root = entries.map (·.1) := FileTree.names_of_resolve hroot
  constructor
  case prompts =>
    intro entries hroot
    rw [← hnames hroot]
    exact (listsExactly_discover hproper).congr fun name hname =>
      isDocument_prompt_iff (hproper.2 name hname)
  case skills =>
    intro entries hroot
    rw [← hnames hroot]
    exact (listsExactly_discover hproper).congr fun _ _ => FileTree.isDirectory_iff
  case entry =>
    intro entries name child hroot hmem hlink hnul hbytes hfits
    have hname : name ∈ t.fileSystem.names root := hnames hroot ▸ List.mem_map_of_mem hmem
    have hchild : (Node.directory entries).child? name = some child :=
      (Association.Distinct.lookup_eq_some_iff
        (FileTree.wellFormed_of_resolve htop hroot).here.1).2 hmem
    exact FileTree.resolve_join_of_child? hroot (hproper.2 name hname) hnul hbytes hfits hchild
      hlink
  case listing =>
    intro gs kind hperm hkind
    refine discover_congr ?_ fun path _ => hkind path
    rw [children, children, ← sortedNames, ← sortedNames, sortedNames_eq_of_perm hperm]
  case apart =>
    intro path hprompt hskill
    rw [discover_eq_filter, List.mem_filter] at hprompt hskill
    exact not_isDocument_skill_of_prompt hprompt.2 hskill.2
  case nothing => exact fun h kind => discover_eq_nil h

/-- A root behind a link, with prompts and skills behind links, a link that dangles, one
that loops and a directory called like a prompt. -/
def linkedTargets : FileTree :=
  ⟨.directory
    [("l", .link "d"), ("f", .file []),
    ("d", .directory
      [("z", .directory []), ("b.prompt.md", .link "../f"), ("a.prompt.md", .file []),
      ("y", .link "nowhere"), ("x.prompt.md", .link "x.prompt.md"),
      ("c.prompt.md", .directory []), ("k", .link "z")])], []⟩

/-- Two prompts and three skills are found, in the order of their names. -/
theorem discoversExactly_linkedTargets :
    linkedTargets.top.WellFormed ∧ DiscoversExactly linkedTargets {} "l/." ∧
      linkedTargets.IsDirectoryAt "l/." ∧
      discover linkedTargets.fileSystem {} .prompt "l/." =
        (["l/./a.prompt.md", "l/./b.prompt.md"] : List Bytes) ∧
      discover linkedTargets.fileSystem {} .skill "l/." =
        (["l/./c.prompt.md", "l/./k", "l/./z"] : List Bytes) :=
  have htop : linkedTargets.top.WellFormed := Node.everywhere_of_nodes (by decide)
  ⟨htop, discoversExactly htop {} "l/.", ⟨_, rfl⟩, by decide +kernel, by decide +kernel⟩

end Lint

end DocLint
