/-
# Following paths in a file tree

A path is followed piece by piece.  Every piece asks for a directory to stand
in; then

| piece | what happens |
| --- | --- |
| empty or `.` | the walk stays |
| `..` | the walk goes up, and stays at the top |
| name of more than 255 bytes | `nameTooLong` |
| name of a link | the pieces of its target come first, from here or, if absolute, from the top |
| name of a file or directory | the walk goes there |
| any other name | `notFound` |

A path may pass 40 links and no more, so that loops end.  The last piece is
followed like the others: what `resolve` returns is never a link.
-/

import DocLint.FileTree.Basic

namespace DocLint

/-- A place in a tree: a node and the directories above it, innermost first. -/
structure Place where
  here : Node
  above : List Node
deriving Repr, Inhabited

namespace Place

/-- The place of the directory that holds this one; the top holds itself. -/
def up (p : Place) : Place :=
  match p.above with
  | [] => p
  | parent :: above => ⟨parent, above⟩

/-- The place of `node`, found in the directory here. -/
def down (p : Place) (node : Node) : Place := ⟨node, p.here :: p.above⟩

end Place

/-- Where a walk comes to rest: at a node, or before a link with pieces still to
walk behind it. -/
inductive Halt
  | done (node : Node)
  | link (place : Place) (target : Path) (rest : List Bytes)

namespace FileTree

/-- The most bytes that a name may have. -/
def maxNameBytes : Nat := 255

/-- The fewest bytes that make a path too long. -/
def maxPathBytes : Nat := 4096

/-- The most links that one path may pass. -/
def maxLinks : Nat := 40

/-- Walks up to the end of the pieces or to the first link. -/
def walk (p : Place) : List Bytes → Except FileError Halt
  | [] => .ok (.done p.here)
  | piece :: rest =>
    match p.here with
    | .directory _ =>
      if piece = [] ∨ piece = Path.dot then walk p rest
      else if piece = Path.dotDot then walk p.up rest
      else if maxNameBytes < piece.length then .error .nameTooLong
      else
        match p.here.child? piece with
        | none => .error .notFound
        | some (.link target) => .ok (.link p target rest)
        | some node => walk (p.down node) rest
    | _ => .error .notADirectory

/-- Walks to the end of the pieces, passing at most `links` links. -/
def follow (top : Node) : Nat → Place → List Bytes → Except FileError Node
  | links, p, pieces =>
    match walk p pieces with
    | .error e => .error e
    | .ok (.done node) => .ok node
    | .ok (.link p target rest) =>
      match links with
      | 0 => .error .tooManyLinks
      | links + 1 =>
        follow top links (if Path.isAbsolute target then ⟨top, []⟩ else p)
          (Path.pieces target ++ rest)

/-- The place of the working directory. -/
def workingPlace (t : FileTree) : Place :=
  t.workingDirectory.foldl (fun p name => p.down ((p.here.child? name).getD (.directory [])))
    ⟨t.top, []⟩

/-- What `path` leads to. -/
def resolve (t : FileTree) (path : Path) : Except FileError Node :=
  if 0 ∈ path then .error .nulByte
  else if path = [] then .error .notFound
  else if maxPathBytes ≤ path.length then .error .nameTooLong
  else
    follow t.top maxLinks (if Path.isAbsolute path then ⟨t.top, []⟩ else t.workingPlace)
      (Path.pieces path)

/-- The answers that a tree gives. -/
def fileSystem (t : FileTree) : FileSystem where
  kindAt path :=
    match t.resolve path with
    | .ok (.file _) => some .file
    | .ok (.directory _) => some .directory
    | _ => none
  read path :=
    match t.resolve path with
    | .ok (.file content) => .ok content
    | .ok _ => .error .isADirectory
    | .error e => .error e
  names path :=
    match t.resolve path with
    | .ok node => node.entries.map (·.1)
    | .error _ => []

end FileTree

end DocLint
