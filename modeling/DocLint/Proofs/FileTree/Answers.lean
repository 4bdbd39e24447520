/-
# The answers of a file tree

What a run learns from a tree, in terms of what paths resolve to.  `resolve`
follows every link on the way, so a path leads to a file, to a directory or
nowhere.

| question | answer |
| --- | --- |
| what `p` leads to | the kind of what `p` resolves to (`kindAt_eq_file_iff`, `kindAt_eq_directory_iff`) |
| whether `p` leads somewhere | whether it resolves to either (`leadsSomewhere_iff`) |
| the text at `p` | the decoded content of the file it resolves to (`readText_eq_ok_iff`) |
-/

import DocLint.FileTree.Resolve

namespace DocLint

namespace FileTree

/-- `p` resolves to a file with the given content. -/
def IsFileAt (t : FileTree) (p : Path) (content : Bytes) : Prop :=
  t.resolve p = .ok (.file content)

/-- `p` resolves to a directory. -/
def IsDirectoryAt (t : FileTree) (p : Path) : Prop :=
  ∃ entries, t.resolve p = .ok (.directory entries)

/-- `p` resolves, through any links, to a file or a directory. -/
def Resolves (t : FileTree) (p : Path) : Prop :=
  (∃ content, t.IsFileAt p content) ∨ t.IsDirectoryAt p

/-- A subdirectory of `root` is an entry `name` for which the path `root/name` leads to a
directory, through links or not.  What is asked is where the joined path leads: an entry that is a
directory, but whose path below `root` is too long to follow, is none. -/
def IsSubdirectory (t : FileTree) (root : Path) (name : Bytes) : Prop :=
  name ∈ t.fileSystem.names root ∧ t.IsDirectoryAt (Path.join root name)

variable {t : FileTree} {p : Path}

/-- A file is answered where the path leads to one, through whatever links, and whether or not
it could be read as text. -/
theorem kindAt_eq_file_iff :
    t.fileSystem.kindAt p = some .file ↔ ∃ content, t.IsFileAt p content := by
  simp only [fileSystem, IsFileAt]
  split <;> simp_all

/-- A directory is answered where the path leads to one, through whatever links and with
whatever entries. -/
theorem kindAt_eq_directory_iff : t.fileSystem.kindAt p = some .directory ↔ t.IsDirectoryAt p := by
  simp only [fileSystem, IsDirectoryAt]
  split <;> simp_all

theorem isDirectory_iff : t.fileSystem.isDirectory p ↔ t.IsDirectoryAt p := by
  rw [FileSystem.isDirectory, beq_iff_eq, kindAt_eq_directory_iff]

/-- **A path leads somewhere exactly where it resolves.**  Why it does not is lost in the
answer: a link that loops is as good as no entry. -/
theorem leadsSomewhere_iff : t.fileSystem.leadsSomewhere p ↔ t.Resolves p := by
  rw [Resolves, ← kindAt_eq_file_iff, ← kindAt_eq_directory_iff, FileSystem.leadsSomewhere,
    Option.isSome_iff_exists]
  constructor
  · rintro ⟨kind, hkind⟩
    cases kind with
    | file => exact .inl hkind
    | directory => exact .inr hkind
  · rintro (h | h)
    · exact ⟨_, h⟩
    · exact ⟨_, h⟩

/-- A path can be read exactly where it leads to a file, and then gives all of its bytes. -/
theorem read_eq_ok_iff {content : Bytes} :
    t.fileSystem.read p = .ok content ↔ t.IsFileAt p content := by
  simp only [fileSystem, IsFileAt]
  split <;> simp_all

/-- **The text at a path is the text of the file there,** decoded with one U+FFFD for each
ill-formed piece. -/
theorem readText_eq_ok_iff {text : Text} :
    t.fileSystem.readText p = .ok text ↔
      ∃ content, t.IsFileAt p content ∧ Utf8.decodeLossy content = text := by
  simp only [← read_eq_ok_iff, FileSystem.readText]
  cases t.fileSystem.read p with
  | error e => simp [Except.map]
  | ok content => simp [Except.map]

end FileTree

end DocLint
