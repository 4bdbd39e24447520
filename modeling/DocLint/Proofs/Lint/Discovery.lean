/-
# What discovery finds, and in which order

`discover` and `children`, SPEC_FULL.md §4.4 and §10.4.

The documents under a root are picked from the names that the root holds
(`isDocument`).  They come in the order of their names, byte by byte
(`pairwise_documentNames`), and each is reported by its name
seen from the root (`discover_eq_map`).  What the file system listed first has no
part in it.
-/

import DocLint.Lint
import DocLint.Proofs.StableSort

namespace DocLint

namespace Lint

/-- `path` leads to a document of the kind. -/
def isDocument (fs : FileSystem) (settings : Settings) (kind : Kind) (path : Path) : Bool :=
  match kind with
  | .prompt => fs.isFile path && hasSuffix settings.prompts.suffix path
  | .skill => fs.isDirectory path

/-- The names of a directory, the least first. -/
def sortedNames (names : List Bytes) : List Bytes := stableSort (fun a b => !(b < a)) names

/-- The names under `root` that lead to documents of the kind. -/
def documentNames (fs : FileSystem) (settings : Settings) (kind : Kind) (root : Path) :
    List Bytes :=
  (sortedNames (fs.names root)).filter fun name =>
    isDocument fs settings kind (Path.join root name)

variable {fs : FileSystem} {settings : Settings} {kind : Kind} {root : Path}

/-- For both kinds discovery picks the documents among the entries. -/
theorem discover_eq_filter :
    discover fs settings kind root = (children fs root).filter (isDocument fs settings kind) := by
  cases kind with
  | prompt => rfl
  | skill => rfl

/-- **Discovery is a choice among the names.**  Each path is the root with a name joined to it,
so what is said of paths can be said of names. -/
theorem discover_eq_map :
    discover fs settings kind root =
      (documentNames fs settings kind root).map (Path.join root) := by
  rw [discover_eq_filter, children, List.filter_map]
  rfl

/-- Sorted names come in the order of their bytes, whatever order they were listed in. -/
theorem pairwise_sortedNames (names : List Bytes) :
    (sortedNames names).Pairwise fun a b => ¬ b < a := by
  have hsorted : (sortedNames names).Pairwise fun a b => (!decide (b < a)) = true := by
    refine pairwise_stableSort (fun a b => ?_) (fun a b c hab hbc => ?_) names
    · rw [Bool.not_eq_true', Bool.not_eq_true', decide_eq_false_iff_not, decide_eq_false_iff_not]
      exact (List.le_total a b).imp List.not_lt.2 List.not_lt.2
    · rw [Bool.not_eq_true', decide_eq_false_iff_not] at hab hbc ⊢
      exact List.not_lt.2 (List.le_trans (List.not_lt.1 hab) (List.not_lt.1 hbc))
  exact hsorted.imp fun h => by rwa [Bool.not_eq_true', decide_eq_false_iff_not] at h

/-- **Names that are listed in another order are sorted to the same,** since equal names cannot
be told apart. -/
theorem sortedNames_eq_of_perm {a b : List Bytes} (h : a.Perm b) :
    sortedNames a = sortedNames b := by
  refine List.Perm.eq_of_pairwise (fun x y _ _ hxy hyx => ?_) (pairwise_sortedNames a)
    (pairwise_sortedNames b) ?_
  · exact List.le_antisymm (List.not_lt.1 hxy) (List.not_lt.1 hyx)
  · exact (perm_stableSort _ a).trans (h.trans (perm_stableSort _ b).symm)

/-- **Discovery depends on the names and on what each of them leads to.**  The contents of
documents are not looked at. -/
theorem discover_congr {gs : FileSystem} (hchildren : children fs root = children gs root)
    (hkind : ∀ path ∈ children fs root, fs.kindAt path = gs.kindAt path) :
    discover fs settings kind root = discover gs settings kind root := by
  rw [discover_eq_filter, discover_eq_filter, ← hchildren]
  refine List.filter_congr fun path hpath => ?_
  cases kind with
  | prompt => simp only [isDocument, FileSystem.isFile, hkind path hpath]
  | skill => simp only [isDocument, FileSystem.isDirectory, hkind path hpath]

/-- **The names of documents ascend byte by byte.**  Picking some of the sorted names keeps
their order. -/
theorem pairwise_documentNames :
    (documentNames fs settings kind root).Pairwise fun a b => a = b ∨ a < b := by
  refine ((pairwise_sortedNames _).filter _).imp fun {a b} h => ?_
  exact (List.le_iff_lt_or_eq.1 (List.not_lt.1 h)).symm

/-- **Every document is found, and nothing else:** a name is picked if it is listed and its path
leads to a document. -/
theorem mem_documentNames_iff {name : Bytes} :
    name ∈ documentNames fs settings kind root ↔
      name ∈ fs.names root ∧ isDocument fs settings kind (Path.join root name) := by
  rw [documentNames, List.mem_filter, sortedNames, (perm_stableSort _ _).mem_iff]

end Lint

end DocLint
