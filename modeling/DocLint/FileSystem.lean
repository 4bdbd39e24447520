/-
# File systems

What `read_text`, `children` and the two validators ask for, SPEC_FULL.md §7 and §10.3.

What a run may ask about the files around it, and the ways in which an answer
can fail.  A run asks three things of a path, and nothing else: what it leads
to, the bytes of the file there, and the names in the directory there.
Symbolic links are followed by whoever answers.
-/

import DocLint.Path

namespace DocLint

/-- What a path leads to. -/
inductive EntryKind
  | file
  | directory
deriving Repr, DecidableEq

/-- Why a path leads to nothing, or why nothing can be read there. -/
inductive FileError
  | notFound
  | notADirectory
  | isADirectory
  | nameTooLong
  | tooManyLinks
  | nulByte
  | invalidUtf8
deriving Repr, DecidableEq

/-- The text of a file error. -/
def FileError.message : FileError → Text
  | .notFound => "No such file or directory (os error 2)"
  | .notADirectory => "Not a directory (os error 20)"
  | .isADirectory => "Is a directory (os error 21)"
  | .nameTooLong => "File name too long (os error 36)"
  | .tooManyLinks => "Too many levels of symbolic links (os error 40)"
  | .nulByte => "file name contained an unexpected NUL byte"
  | .invalidUtf8 => "stream did not contain valid UTF-8"

/-- The answers that a run gets. -/
structure FileSystem where
  /-- What a path leads to; none where it leads nowhere. -/
  kindAt : Path → Option EntryKind
  /-- The bytes of the file that a path leads to. -/
  read : Path → Except FileError Bytes
  /-- The names directly under the directory that a path leads to, in any
  order; no names where it leads to no directory. -/
  names : Path → List Bytes

namespace FileSystem

/-- `p` leads to something. -/
def leadsSomewhere (fs : FileSystem) (p : Path) : Bool := (fs.kindAt p).isSome

/-- `p` leads to a file. -/
def isFile (fs : FileSystem) (p : Path) : Bool := fs.kindAt p == some .file

/-- `p` leads to a directory. -/
def isDirectory (fs : FileSystem) (p : Path) : Bool := fs.kindAt p == some .directory

/-- The text of the document that `p` leads to, with U+FFFD for what is not
UTF-8. -/
def readText (fs : FileSystem) (p : Path) : Except FileError Text :=
  (fs.read p).map Utf8.decodeLossy

/-- The text of the file that `p` leads to, which must be UTF-8. -/
def readUtf8 (fs : FileSystem) (p : Path) : Except FileError Text :=
  match fs.read p with
  | .error e => .error e
  | .ok bytes =>
    match Utf8.decode? bytes with
    | some t => .ok t
    | none => .error .invalidUtf8

end FileSystem

end DocLint
