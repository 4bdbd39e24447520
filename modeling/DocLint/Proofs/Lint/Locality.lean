/-
# What a run sees of one name

A document is checked by itself.  Its diagnostics depend on what it is answered by, on
its last name and, for the paths that they bear, on where it is looked for
(`validate_reroot`).  So where two roots, of one file system or of two, are alike under
some names (`AlikeUnder`), the runs over them find the same documents among these names,
in the same order, and of each the same (`found_reroot`).

| asked by a run of | at | of |
| --- | --- | --- |
| prompts | `root/name` | the kind, then the bytes |
| skills | `root/name` | the kind |
| skills | `root/name/document` | whether it leads anywhere, then the bytes |

Nothing else is asked, and nothing about one name is asked for the sake of another.
-/

import Mathlib.Data.List.Basic
import DocLint.Proofs.FileTree.Agreement
import DocLint.Proofs.Lint.Citations
import DocLint.Proofs.Lint.Composition

namespace DocLint

open Diagnostic

/-! ### A diagnostic moves with its document -/

/-- A check that is moved to another document moves its diagnostics, so a list of checks does.
-/
theorem filterMap_checks_map {α : Type} {checks : List (α → Option Diagnostic)} (f : Path → Path)
    {doc moved : α} (h : ∀ check ∈ checks, check moved = (check doc).map (mapPath f)) :
    (checks.filterMap fun check => check moved) =
      (checks.filterMap fun check => check doc).map (mapPath f) := by
  rw [List.map_filterMap]
  exact List.filterMap_congr h

namespace Prompt

/-- The checks report at the path that they are given, and look at it for nothing else. -/
theorem checks_move (doc : Document) (f : Path → Path) :
    ∀ check ∈ checks, check { doc with path := f doc.path } = (check doc).map (mapPath f) := by
  intro check h
  simp only [checks, List.mem_cons, List.not_mem_nil, or_false] at h
  rcases h with rfl | rfl | rfl | rfl
  · unfold checkName
    dsimp only
    cases doc.fields.nonEmpty? "name" with
    | none => rfl
    | some name =>
      dsimp only
      split <;> rfl
  · unfold checkDescription
    dsimp only
    cases doc.fields.nonEmpty? "description" <;> rfl
  · unfold checkInputVariables
    dsimp only
    rcases variableCount doc.text with _ | _ | _ <;> rfl
  · unfold checkOutputSection
    dsimp only
    split <;> rfl

/-- **A prompt that is read from another path breaks the same rules there,** and is reported
there instead. -/
theorem check_move (f : Path → Path) (path : Path) (text : Text) :
    check (f path) text = (check path text).map (mapPath f) := by
  unfold check
  split
  · rfl
  · next fields _ => exact filterMap_checks_map f (checks_move ⟨path, text, fields⟩ f)

end Prompt

namespace Skill

variable {settings : SkillSettings} {f : Path → Path}

/-- The checks of a skill report at the paths that they are given, and look at the directory for
its last name only. -/
theorem checks_move (doc : Document)
    (hlast : Path.lastName? (f doc.directory) = Path.lastName? doc.directory) :
    ∀ check ∈ checks, check { doc with directory := f doc.directory, file := f doc.file } =
      (check doc).map (mapPath f) := by
  intro check h
  simp only [checks, List.mem_cons, List.not_mem_nil, or_false] at h
  rcases h with rfl | rfl | rfl | rfl
  · unfold checkName
    dsimp only
    cases doc.fields.nonEmpty? "name" with
    | none => rfl
    | some name =>
      dsimp only
      split <;> rfl
  · unfold checkDirectoryName
    dsimp only
    rw [hlast]
    cases doc.fields.nonEmpty? "name" with
    | none => rfl
    | some name =>
      dsimp only
      split <;> rfl
  · unfold checkDescription
    dsimp only
    cases doc.fields.nonEmpty? "description" <;> rfl
  · unfold checkDescriptionLength
    dsimp only
    cases doc.fields.nonEmpty? "description" with
    | none => rfl
    | some description =>
      dsimp only
      split <;> rfl

/-- A text found elsewhere is reported alike but for the paths, as long as the directory keeps
its last name. -/
theorem checkText_move {directory : Path} (file : Path) (text : Text)
    (hlast : Path.lastName? (f directory) = Path.lastName? directory) :
    checkText (f directory) (f file) text settings =
      (checkText directory file text settings).map (mapPath f) := by
  have hlines : (checkLineCount (f file) text settings).toList =
      (checkLineCount file text settings).toList.map (mapPath f) := by
    unfold checkLineCount
    dsimp only
    split <;> rfl
  rw [checkText, checkText, List.map_append, hlines]
  congr 1
  split
  · rfl
  · next fields _ =>
    exact filterMap_checks_map f (checks_move ⟨directory, file, fields, settings⟩ hlast)

/-- Without a document there is one diagnostic, at the directory, and no further check. -/
theorem check_of_not_leadsSomewhere {fs : FileSystem} {directory : Path}
    (h : ¬ fs.leadsSomewhere (Path.join directory settings.documentName)) :
    check fs directory settings =
      [missingDocument.violation ("missing " ++ settings.fileName) directory] := by
  rw [check]
  exact if_neg h

/-- **A skill that is looked for in another directory of the same name breaks the same
rules there,** if its document is answered alike. -/
theorem check_move {fs gs : FileSystem} {directory : Path}
    (hlast : Path.lastName? (f directory) = Path.lastName? directory)
    (hfile : Path.join (f directory) settings.documentName =
      f (Path.join directory settings.documentName))
    (halike : fs.AlikeAt (Path.join directory settings.documentName) gs
      (Path.join (f directory) settings.documentName)) :
    check gs (f directory) settings = (check fs directory settings).map (mapPath f) := by
  by_cases hsomewhere : fs.leadsSomewhere (Path.join directory settings.documentName)
  · unfold check
    dsimp only
    rw [if_pos hsomewhere, if_pos (halike.leadsSomewhere_eq ▸ hsomewhere),
      ← halike.readText_eq hsomewhere, hfile]
    split
    · exact checkText_move _ _ hlast
    · rfl
  · rw [check_of_not_leadsSomewhere hsomewhere,
      check_of_not_leadsSomewhere (halike.leadsSomewhere_eq ▸ hsomewhere)]
    rfl

end Skill

namespace Lint

variable {fs gs : FileSystem} {settings : Settings} {kind : Kind} {r s : Path} {name : Bytes}

/-! ### One name under two roots -/

/-- What stands behind a target in the path of its document. -/
def documentTail (settings : Settings) (kind : Kind) : Bytes :=
  match kind with
  | .prompt => []
  | .skill => Path.slash :: settings.skills.documentName

/-- A name under `r` is answered like the same name under `s`, and so is the document
there, where there is one. -/
structure AlikeUnder (fs : FileSystem) (r : Path) (gs : FileSystem) (s : Path)
    (settings : Settings) (kind : Kind) (name : Bytes) : Prop where
  entry : fs.AlikeAt (Path.join r name) gs (Path.join s name)
  document : isDocument fs settings kind (Path.join r name) →
    fs.AlikeAt (documentPath settings kind (Path.join r name)) gs
      (documentPath settings kind (Path.join s name))

/-- The document of an entry has the path of the entry, with the same tail for each entry. -/
theorem documentPath_join (hfile : Path.IsName settings.skills.documentName)
    (hname : Path.IsName name) (root : Path) :
    documentPath settings kind (Path.join root name) =
      Path.join root name ++ documentTail settings kind := by
  cases kind with
  | prompt => exact (List.append_nil _).symm
  | skill => exact Path.join_join hname hfile root

/-- What stands behind an entry begins with a slash, or is nothing where the entry is the
document. -/
theorem documentTail_cases (settings : Settings) (kind : Kind) :
    documentTail settings kind = [] ∨ ∃ rest, documentTail settings kind = Path.slash :: rest := by
  cases kind with
  | prompt => exact .inl rfl
  | skill => exact .inr ⟨_, rfl⟩

theorem leadsSomewhere_of_isDirectory {path : Path} (h : fs.isDirectory path) :
    fs.leadsSomewhere path := by
  rw [FileSystem.isDirectory, beq_iff_eq] at h
  rw [FileSystem.leadsSomewhere, h]
  rfl

theorem leadsSomewhere_of_isDocument {path : Path} (h : isDocument fs settings kind path) :
    fs.leadsSomewhere path := by
  cases kind with
  | prompt =>
    have hfile := (Bool.and_eq_true_iff.1 h).1
    rw [FileSystem.isFile, beq_iff_eq] at hfile
    rw [FileSystem.leadsSomewhere, hfile]
    rfl
  | skill => exact leadsSomewhere_of_isDirectory h

/-- An entry that looks alike under two roots is a document under both or under neither: its
kind is the same, and so is its name. -/
theorem AlikeUnder.isDocument_eq (h : AlikeUnder fs r gs s settings kind name)
    (hname : Path.IsName name) :
    isDocument gs settings kind (Path.join s name) =
      isDocument fs settings kind (Path.join r name) := by
  cases kind with
  | prompt =>
    simp only [isDocument, FileSystem.isFile, hasSuffix, h.entry.kindAt_eq,
      Path.lastName?_join hname]
  | skill => simp only [isDocument, FileSystem.isDirectory, h.entry.kindAt_eq]

/-- **A document that is alike under two roots breaks the same rules under both,** and
each is reported at the path seen from its root. -/
theorem validate_reroot (h : AlikeUnder fs r gs s settings kind name)
    (hfile : Path.IsName settings.skills.documentName) (hname : Path.IsName name)
    (hdocument : isDocument fs settings kind (Path.join r name)) :
    validate gs settings kind (Path.join s name) =
      (validate fs settings kind (Path.join r name)).map (mapPath (Path.reroot r s)) := by
  have htarget : Path.reroot r s (Path.join r name) = Path.join s name := by
    rw [← List.append_nil (Path.join r name), Path.reroot_join hname, List.append_nil]
  cases kind with
  | prompt =>
    unfold validate
    dsimp only
    rw [← h.entry.readText_eq (leadsSomewhere_of_isDocument hdocument), ← htarget]
    split
    · exact Prompt.check_move _ _ _
    · rfl
  | skill =>
    have hlast : Path.lastName? (Path.reroot r s (Path.join r name)) =
        Path.lastName? (Path.join r name) := by
      rw [htarget, Path.lastName?_join hname, Path.lastName?_join hname]
    -- The document is looked for behind the target, so it moves along with it.
    have hjoin : Path.join (Path.reroot r s (Path.join r name)) settings.skills.documentName =
        Path.reroot r s (Path.join (Path.join r name) settings.skills.documentName) := by
      rw [htarget, Path.join_join hname hfile, Path.join_join hname hfile,
        Path.reroot_join hname]
    have halike := h.document hdocument
    rw [documentPath, documentPath, ← htarget] at halike
    rw [← htarget]
    exact Skill.check_move hlast hjoin halike

/-! ### The names under two roots -/

/-- No document is found twice, since no directory holds a name twice. -/
theorem nodup_documentNames (h : fs.ProperlyNamed r) :
    (documentNames fs settings kind r).Nodup :=
  List.Pairwise.filter _ ((perm_stableSort _ _).nodup_iff.2 h.1)

/-- A document is called by a single component. -/
theorem isName_of_mem_documentNames (h : fs.ProperlyNamed r)
    (hname : name ∈ documentNames fs settings kind r) : Path.IsName name :=
  h.2 name (mem_documentNames_iff.1 hname).1

/-- What a run finds at some names, before it is sorted. -/
def found (fs : FileSystem) (settings : Settings) (kind : Kind) (root : Path) (names : List Bytes) :
    List Diagnostic :=
  names.flatMap fun name => validate fs settings kind (Path.join root name)

/-- The report of a run whose root is a directory, put together name by name. -/
theorem run_eq_of_isDirectory (h : fs.isDirectory r) (timestamp : Text) :
    run fs settings kind r timestamp =
      .ok (.new kind r timestamp (documentNames fs settings kind r).length
        (found fs settings kind r (documentNames fs settings kind r))) := by
  obtain ⟨report, hrun, -⟩ := run_eq_ok (leadsSomewhere_of_isDirectory h) fun _ => h
  rw [hrun, report_eq_of_run hrun, discover_eq_map, List.length_map, List.flatMap_map]
  rfl

section Names

variable {keep : Bytes → Bool} (hr : fs.ProperlyNamed r) (hs : gs.ProperlyNamed s)
  (hnames : ∀ name, keep name → (name ∈ fs.names r ↔ name ∈ gs.names s))
  (halike : ∀ name ∈ fs.names r, keep name → AlikeUnder fs r gs s settings kind name)

include hr hs hnames halike

/-- **The same documents are found among the names that are alike,** in the same order, whatever
other names there are. -/
theorem documentNames_filter_eq :
    (documentNames gs settings kind s).filter keep =
      (documentNames fs settings kind r).filter keep := by
  have hsorted (fs : FileSystem) (r : Path) :
      ((documentNames fs settings kind r).filter keep).Pairwise fun a b => ¬ b < a :=
    ((pairwise_sortedNames (fs.names r)).filter _).filter keep
  -- Sorted lists without doublets are known by their members.
  refine List.Perm.eq_of_pairwise (fun a b _ _ hab hba => ?_) (hsorted gs s) (hsorted fs r) ?_
  · exact List.le_antisymm (List.not_lt.1 hab) (List.not_lt.1 hba)
  · refine (List.perm_ext_iff_of_nodup ((nodup_documentNames hs).filter keep)
      ((nodup_documentNames hr).filter keep)).2 fun name => ?_
    rw [List.mem_filter, List.mem_filter, and_congr_left_iff, mem_documentNames_iff,
      mem_documentNames_iff]
    intro hkeep
    rw [← hnames name hkeep, and_congr_right_iff]
    intro hmem
    rw [(halike name hmem hkeep).isDocument_eq (hr.2 name hmem)]

/-- **What is found at the names that are alike is the same,** seen from either root: only the
root in front of each path is another. -/
theorem found_reroot (hfile : Path.IsName settings.skills.documentName) :
    found gs settings kind s ((documentNames gs settings kind s).filter keep) =
      (found fs settings kind r ((documentNames fs settings kind r).filter keep)).map
        (mapPath (Path.reroot r s)) := by
  rw [documentNames_filter_eq hr hs hnames halike, found, found, List.map_flatMap]
  refine List.flatMap_congr fun name hmem => ?_
  obtain ⟨hmem, hkeep⟩ := List.mem_filter.1 hmem
  obtain ⟨hmem, hdocument⟩ := mem_documentNames_iff.1 hmem
  exact validate_reroot (halike name hmem hkeep) hfile (hr.2 name hmem) hdocument

end Names

end Lint

end DocLint
