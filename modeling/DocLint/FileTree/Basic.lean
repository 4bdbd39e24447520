/-
# File trees

A file tree is a value: files with their bytes, directories with their entries,
and symbolic links with the path they hold.  Names are bytes, as paths are.  `put`
and `remove` change one place, named by the names that lead to it.
-/

import DocLint.Association
import DocLint.FileSystem

namespace DocLint

/-- What can stand in a directory. -/
inductive Node
  | file (content : Bytes)
  | directory (entries : List (Bytes × Node))
  | link (target : Path)
deriving Repr, Inhabited

namespace Node

/-- The entries of a directory; none of anything else. -/
def entries : Node → List (Bytes × Node)
  | .directory entries => entries
  | _ => []

/-- The entry of a directory under `name`. -/
def child? (node : Node) (name : Bytes) : Option Node := node.entries.lookup name

/-- The tree with `new` at the place that `names` lead to.  Missing directories
on the way are made. -/
def put (new : Node) : List Bytes → Node → Node
  | [], _ => new
  | name :: names, node =>
    .directory (Association.set name (put new names ((node.child? name).getD (.directory [])))
      node.entries)

/-- The tree without the place that `names` lead to, and all below it. -/
def remove : List Bytes → Node → Node
  | [], node => node
  | [name], node => .directory (node.entries.filter fun e => e.1 ≠ name)
  | name :: names, node =>
    match node.child? name with
    | some child => .directory (Association.set name (remove names child) node.entries)
    | none => node

end Node

/-- A tree and the place in it where relative paths start. -/
structure FileTree where
  top : Node
  /-- The names that lead from the top to the working directory. -/
  workingDirectory : List Bytes
deriving Repr, Inhabited

end DocLint
