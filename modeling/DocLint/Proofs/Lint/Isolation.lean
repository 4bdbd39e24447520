/-
# Documents do not disturb each other

`run_lint`, SPEC_FULL.md §4.4: the validator is applied to each document.

Two trees without links are compared that differ only at one name under the root
(`FileTree.DifferOnlyAt`): absent in one, a file or a directory with any content in the
other.  The runs over them have the same diagnostics at all other paths, in the same
order, and count the same other documents (`run_isolated`).

The report mixes the documents, since it is sorted by severity.  What belongs to the
name is told from the paths: a diagnostic of the document called `name` is within
`root/n` exactly where `name` is `n` (`isWithin_iff_of_mem_validate`).  So leaving these
diagnostics out of a report is leaving the name out of the documents
(`filter_diagnostics_eq`), and the other names are alike in both trees
(`alikeUnder_of_differOnlyAt`), because no path from the root to one of them passes
through `n`.
-/

import DocLint.Proofs.Lint.Locality

namespace DocLint

open Diagnostic

namespace FileTree

variable {t u : FileTree} {place : List Bytes} {path : Path} {name : Bytes}

/-- The trees differ at `place` and below it, if anywhere. -/
structure DifferOnlyAt (place : List Bytes) (t u : FileTree) : Prop where
  workingDirectory_eq : t.workingDirectory = u.workingDirectory
  agree : t.top.AgreeOn (fun other => ¬ place <+: other) u.top

/-- An entry is one place further down than its directory. -/
theorem placeOf_join (hname : Path.IsName name) (path : Path) :
    t.placeOf (Path.join path name) = t.placeOf path ++ [name] := by
  rw [placeOf, placeOf, Path.isAbsolute_join hname, Path.components_join hname, List.append_assoc]

/-- Whoever is not within a place was not within it on the way either. -/
theorem onTheWay_not_within (place : List Bytes) : OnTheWay fun other => ¬ place <+: other :=
  fun _ rest h hstarts => h (hstarts.trans (List.prefix_append _ rest))

/-- A place behind another name is not below this one, however far down it is. -/
theorem not_within_of_ne {n : Bytes} (hne : name ≠ n) (parent rest : List Bytes) :
    ¬ parent ++ [n] <+: parent ++ name :: rest := by
  rw [List.prefix_append_right_inj, List.cons_prefix_cons]
  exact fun h => hne h.1.symm

/-- A path that does not lead by the place resolves alike in both trees, to nodes that agree
away from it or with the same error. -/
theorem DifferOnlyAt.resolve_agree (h : DifferOnlyAt place t u) (ht : t.top.LinkFree)
    (hu : u.top.LinkFree) (hups : Path.dotDot ∉ Path.pieces path)
    (hoff : ¬ place <+: t.placeOf path) :
    (∃ e, t.resolve path = .error e ∧ u.resolve path = .error e) ∨
      ∃ a b, t.resolve path = .ok a ∧ u.resolve path = .ok b ∧
        a.AgreeOn (fun rest => ¬ place <+: t.placeOf path ++ rest) b :=
  FileTree.resolve_agree (onTheWay_not_within place) h.workingDirectory_eq h.agree ht hu hups hoff

/-- **A path that does not lead by the place is answered alike.**  Without links and `..` a path
leads by the places that its names spell. -/
theorem DifferOnlyAt.alikeAt (h : DifferOnlyAt place t u) (ht : t.top.LinkFree)
    (hu : u.top.LinkFree) (hups : Path.dotDot ∉ Path.pieces path)
    (hoff : ¬ place <+: t.placeOf path) : t.fileSystem.AlikeAt path u.fileSystem path :=
  alikeAt_of_agree (by rwa [List.append_nil]) (h.resolve_agree ht hu hups hoff)

/-- Where the place is under `root`, the other names under `root` are the same, in whichever
order they are listed. -/
theorem DifferOnlyAt.mem_names_iff {root : Path} {n : Bytes}
    (h : DifferOnlyAt (t.placeOf root ++ [n]) t u)
    (ht : t.top.LinkFree) (hu : u.top.LinkFree) (hups : Path.dotDot ∉ Path.pieces root)
    (hne : name ≠ n) : name ∈ t.fileSystem.names root ↔ name ∈ u.fileSystem.names root := by
  have hoff : ¬ t.placeOf root ++ [n] <+: t.placeOf root := fun hstarts => by
    have hlength := hstarts.length_le
    rw [List.length_append, List.length_singleton] at hlength
    omega
  rcases h.resolve_agree ht hu hups hoff with ⟨e, ha, hb⟩ | ⟨a, b, ha, hb, hab⟩
  · simp only [fileSystem, ha, hb]
  · rw [names_of_resolve ha, names_of_resolve hb]
    exact hab.mem_names_iff (not_within_of_ne hne _ [])

end FileTree

namespace Lint

variable {fs : FileSystem} {t u : FileTree} {settings : Settings} {kind : Kind}
  {root : Path} {name n : Bytes} {d : Diagnostic}

/-- **Names other than `n` are alike in trees that differ only there.**  All paths that a run
asks for at another name lead by that name. -/
theorem alikeUnder_of_differOnlyAt (h : t.DifferOnlyAt (t.placeOf root ++ [n]) u)
    (ht : t.top.LinkFree) (hu : u.top.LinkFree) (hups : Path.dotDot ∉ Path.pieces root)
    (hfile : Path.IsName settings.skills.documentName) (hname : Path.IsName name) (hne : name ≠ n) :
    AlikeUnder t.fileSystem root u.fileSystem root settings kind name := by
  have hentryUps := Path.dotDot_not_mem_pieces_join hname hups
  have hentry : t.fileSystem.AlikeAt (Path.join root name) u.fileSystem (Path.join root name) := by
    refine h.alikeAt ht hu hentryUps ?_
    rw [FileTree.placeOf_join hname]
    exact FileTree.not_within_of_ne hne _ []
  refine ⟨hentry, fun _ => ?_⟩
  cases kind with
  | prompt => exact hentry
  | skill =>
    refine h.alikeAt ht hu (Path.dotDot_not_mem_pieces_join hfile hentryUps) ?_
    rw [documentPath, FileTree.placeOf_join hfile, FileTree.placeOf_join hname, List.append_assoc]
    exact FileTree.not_within_of_ne hne _ _

/-! ### What belongs to one name -/

/-- **The path of a diagnostic tells whose it is:** it is that of the document or, for a skill,
of what is in it. -/
theorem isWithin_iff_of_mem_validate (hfile : Path.IsName settings.skills.documentName)
    (hn : Path.IsName n) (hname : Path.IsName name)
    (hd : d ∈ validate fs settings kind (Path.join root name)) :
    Path.IsWithin (Path.join root n) d.path ↔ n = name := by
  obtain ⟨rule, -, hcites⟩ := cites_of_mem_validate hd
  rcases hcites with h | h
  · rw [h.path_eq, ← List.append_nil (Path.join root name)]
    exact Path.isWithin_join_iff hn hname (.inl rfl)
  · rw [h.path_eq, documentPath_join hfile hname]
    exact Path.isWithin_join_iff hn hname (documentTail_cases settings kind)

/-- Leaving out what is within a name is leaving out the name, since no other document reports
there. -/
theorem filter_found (hfile : Path.IsName settings.skills.documentName) (hn : Path.IsName n)
    {names : List Bytes} (hnames : ∀ name ∈ names, Path.IsName name) :
    (found fs settings kind root names).filter
        (fun d => ¬ Path.IsWithin (Path.join root n) d.path) =
      found fs settings kind root (names.filter (· ≠ n)) := by
  induction names with
  | nil => rfl
  | cons name names ih =>
    obtain ⟨hname, hnames⟩ := List.forall_mem_cons.1 hnames
    have hown {d : Diagnostic} (hd : d ∈ validate fs settings kind (Path.join root name)) :=
      isWithin_iff_of_mem_validate hfile hn hname hd
    rw [found, List.flatMap_cons, List.filter_append, ← found, ih hnames]
    -- All that one name brings is within `n`, or nothing of it is.
    by_cases hne : name = n
    · have hnone : (validate fs settings kind (Path.join root name)).filter
          (fun d => ¬ Path.IsWithin (Path.join root n) d.path) = [] :=
        List.filter_eq_nil_iff.2 fun d hd hnot => of_decide_eq_true hnot ((hown hd).2 hne.symm)
      rw [hnone, List.nil_append, List.filter_cons_of_neg (by simpa using hne)]
    · have hall : (validate fs settings kind (Path.join root name)).filter
          (fun d => ¬ Path.IsWithin (Path.join root n) d.path) =
            validate fs settings kind (Path.join root name) :=
        List.filter_eq_self.2 fun d hd => decide_eq_true fun hin => hne ((hown hd).1 hin).symm
      rw [hall, List.filter_cons_of_pos (by simpa using hne)]
      rfl

/-- **A report without what is within a name** is the report on the other documents.  Sorting
and leaving out change places. -/
theorem filter_diagnostics_eq (hfile : Path.IsName settings.skills.documentName) (hn : Path.IsName n)
    (hproper : fs.ProperlyNamed root) (timestamp : Text) (count : Nat) :
    (Report.new kind root timestamp count
        (found fs settings kind root (documentNames fs settings kind root))).diagnostics.filter
          (fun d => ¬ Path.IsWithin (Path.join root n) d.path) =
      sortBySeverity
        (found fs settings kind root ((documentNames fs settings kind root).filter (· ≠ n))) := by
  rw [Report.new, ← sortBySeverity_filter,
    filter_found hfile hn fun name hname => isName_of_mem_documentNames hproper hname]

/-- A list without doublets has one element more than it has others than `a`, where `a`
is in it. -/
theorem length_eq_filter_ne_add {names : List Bytes} (h : names.Nodup) (n : Bytes) :
    names.length = (names.filter (· ≠ n)).length + if n ∈ names then 1 else 0 := by
  induction names with
  | nil => rfl
  | cons name names ih =>
    obtain ⟨hname, hnames⟩ := List.nodup_cons.1 h
    have ih := ih hnames
    by_cases hne : name = n
    · rw [if_neg (hne ▸ hname)] at ih
      rw [List.filter_cons_of_neg (by simpa using hne), if_pos (hne ▸ List.mem_cons_self),
        List.length_cons, ih]
    · have hmem : n ∈ name :: names ↔ n ∈ names := by
        rw [List.mem_cons, or_iff_right (Ne.symm hne)]
      rw [List.filter_cons_of_pos (by simpa using hne), List.length_cons, List.length_cons, ih]
      simp only [hmem]
      omega

/-- A path is discovered exactly where the name in it is that of a document, since names are
told apart by their paths. -/
theorem join_mem_discover_iff (hn : Path.IsName n) (hproper : fs.ProperlyNamed root) :
    Path.join root n ∈ discover fs settings kind root ↔
      n ∈ documentNames fs settings kind root := by
  rw [discover_eq_map, List.mem_map]
  constructor
  · rintro ⟨name, hname, heq⟩
    exact (Path.join_right_inj (isName_of_mem_documentNames hproper hname) hn).1 heq ▸ hname
  · exact fun h => ⟨n, h, rfl⟩

/-- The documents that are counted: those of other names, and the one of `n` where it was
found. -/
theorem length_documentNames_eq (hn : Path.IsName n) (hproper : fs.ProperlyNamed root) :
    (documentNames fs settings kind root).length =
      ((documentNames fs settings kind root).filter (· ≠ n)).length +
        if Path.join root n ∈ discover fs settings kind root then 1 else 0 := by
  rw [length_eq_filter_ne_add (nodup_documentNames hproper) n]
  simp only [join_mem_discover_iff hn hproper]

/-! ### Two trees -/

/-- **What stands at one name of the root has no part in what is reported elsewhere.**
Of two trees without links that differ only there, the reports agree on all other paths,
in the same order, and on the number of the other documents. -/
theorem run_isolated (hfile : Path.IsName settings.skills.documentName)
    (hups : Path.dotDot ∉ Path.pieces root) (hn : Path.IsName n)
    (htop : t.top.WellFormed) (htop' : u.top.WellFormed)
    (hlinks : t.top.LinkFree) (hlinks' : u.top.LinkFree)
    (hroot : t.IsDirectoryAt root) (hroot' : u.IsDirectoryAt root)
    (hdiffer : t.DifferOnlyAt (t.placeOf root ++ [n]) u) (timestamp timestamp' : Text) :
    ∃ report report' others,
      run t.fileSystem settings kind root timestamp = .ok report ∧
      run u.fileSystem settings kind root timestamp' = .ok report' ∧
      report.diagnostics.filter (fun d => ¬ Path.IsWithin (Path.join root n) d.path) =
        report'.diagnostics.filter (fun d => ¬ Path.IsWithin (Path.join root n) d.path) ∧
      report.documentsChecked =
        others + (if Path.join root n ∈ discover t.fileSystem settings kind root then 1 else 0) ∧
      report'.documentsChecked =
        others + if Path.join root n ∈ discover u.fileSystem settings kind root then 1 else 0 := by
  have hproper := FileTree.properlyNamed htop root
  have hproper' := FileTree.properlyNamed htop' root
  have hnames (name : Bytes) (hne : decide (name ≠ n)) :
      name ∈ t.fileSystem.names root ↔ name ∈ u.fileSystem.names root :=
    hdiffer.mem_names_iff hlinks hlinks' hups (of_decide_eq_true hne)
  have halike (name : Bytes) (hmem : name ∈ t.fileSystem.names root) (hne : decide (name ≠ n)) :
      AlikeUnder t.fileSystem root u.fileSystem root settings kind name :=
    alikeUnder_of_differOnlyAt hdiffer hlinks hlinks' hups hfile (hproper.2 name hmem)
      (of_decide_eq_true hne)
  refine ⟨_, _, ((documentNames t.fileSystem settings kind root).filter (· ≠ n)).length,
    run_eq_of_isDirectory (FileTree.isDirectory_iff.2 hroot) timestamp,
    run_eq_of_isDirectory (FileTree.isDirectory_iff.2 hroot') timestamp', ?_, ?_, ?_⟩
  · rw [filter_diagnostics_eq hfile hn hproper, filter_diagnostics_eq hfile hn hproper',
      found_reroot hproper hproper' hnames halike hfile, Path.reroot_self, mapPath_id, List.map_id]
  · exact length_documentNames_eq hn hproper
  · rw [← documentNames_filter_eq hproper hproper' hnames halike]
    exact length_documentNames_eq hn hproper'

/-- Two prompts without frontmatter. -/
def twoPrompts : FileTree :=
  ⟨.directory [("p", .directory [("x.prompt.md", .file []), ("y.prompt.md", .file [])])], []⟩

/-- The same, with a directory in place of the second prompt. -/
def onePrompt : FileTree := ⟨Node.put (.directory []) ["p", "y.prompt.md"] twoPrompts.top, []⟩

/-- What is reported of the first prompt does not depend on the second. -/
theorem run_isolated_twoPrompts :
    ∃ report report' others,
      run twoPrompts.fileSystem {} .prompt "p" [] = .ok report ∧
      run onePrompt.fileSystem {} .prompt "p" [] = .ok report' ∧
      report.diagnostics.filter (fun d => ¬ Path.IsWithin (Path.join "p" "y.prompt.md") d.path) =
        report'.diagnostics.filter
          (fun d => ¬ Path.IsWithin (Path.join "p" "y.prompt.md") d.path) ∧
      report.documentsChecked = others +
        (if Path.join "p" "y.prompt.md" ∈ discover twoPrompts.fileSystem {} .prompt "p" then 1
          else 0) ∧
      report'.documentsChecked = others +
        if Path.join "p" "y.prompt.md" ∈ discover onePrompt.fileSystem {} .prompt "p" then 1
        else 0 := by
  have hparent : twoPrompts.top.at? ["p"] =
      some (.directory [("x.prompt.md", .file []), ("y.prompt.md", .file [])]) := by rfl
  have hdiffer : twoPrompts.DifferOnlyAt (twoPrompts.placeOf "p" ++ [("y.prompt.md" : Bytes)])
      onePrompt := ⟨rfl, Node.agreeOn_put (.directory []) hparent⟩
  exact run_isolated (by decide) (by decide) (by decide) (Node.everywhere_of_nodes (by decide))
    (Node.everywhere_of_nodes (by decide)) (Node.everywhere_of_nodes (by decide))
    (Node.everywhere_of_nodes (by decide)) ⟨_, rfl⟩ ⟨_, rfl⟩ hdiffer [] []

end Lint

end DocLint
