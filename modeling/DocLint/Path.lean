/-
# Paths

A path is a sequence of bytes whose components stand between slashes.  It is kept
as it is written: `a//b` and `a/` are paths of their own, and only a look-up says
what they lead to.  Nothing says that the bytes spell a text.  Where a path is
printed they are read as UTF-8 as far as they are (`display`).

| path | joined with `x` | last name |
| --- | --- | --- |
| `a` | `a/x` | `a` |
| `a/` | `a/x` | `a` |
| `a/.` | `a/./x` | `a` |
| `a/..` | `a/../x` | none |
| the empty path | `x` | none |
| `/` | `/x` | none |
-/

import DocLint.Text.Utf8

namespace DocLint

/-- A path as it is written. -/
abbrev Path := Bytes

namespace Path

/-- The byte that stands between components. -/
def slash : UInt8 := 0x2F

/-- The component that stays where it is. -/
def dot : Bytes := [0x2E]

/-- The component that goes up. -/
def dotDot : Bytes := [0x2E, 0x2E]

/-- `p` starts at the top of the tree. -/
def isAbsolute (p : Path) : Bool := p.head? == some slash

/-- What stands between the slashes of a path, empty pieces included. -/
def pieces (p : Path) : List Bytes := p.splitOn slash

/-- `p` seen from `base`.  An absolute path stays itself, and the slash between
the two is written only where it is missing. -/
def join (base p : Path) : Path :=
  if isAbsolute p then p
  else if base = [] ∨ base.getLast? = some slash then base ++ p
  else base ++ slash :: p

/-- The last name of a path.  Slashes and `.` at the end are passed over; a path
without components or with `..` as the last has none. -/
def lastName? (p : Path) : Option Bytes :=
  ((pieces p).filter fun c => c ≠ [] ∧ c ≠ dot).getLast?.filter (· ≠ dotDot)

/-- A path as it is printed: U+FFFD stands for what is not UTF-8. -/
def display (p : Path) : Text := Utf8.decodeLossy p

/-- The text of a path, where its bytes spell one. -/
def text? (p : Path) : Option Text := Utf8.decode? p

/-- A name that can stand in a directory: not empty, neither `.` nor `..`, and
without a slash. -/
def IsName (n : Bytes) : Prop := n ≠ [] ∧ n ≠ dot ∧ n ≠ dotDot ∧ slash ∉ n

end Path

end DocLint
