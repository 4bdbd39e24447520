/-
# Lines

The lines of a block, SPEC_FULL.md §4.1, and `count_lines`, §10.3.

Two readings of a text as lines, for two readers.

| function | a line ends at | a break at the end |
| --- | --- | --- |
| `lines` | U+000A, with one U+000D before it | starts no line |
| `lineCount` | every break below | starts no line |

The breaks of `lineCount` are U+000A, U+000D (with a U+000A after it: one
break), U+000B, U+000C, U+001C … U+001E, U+0085, U+2028 and U+2029.  A text
that is neither empty nor ends with a break has one open line more.
-/

import DocLint.Text

namespace DocLint

namespace Text

/-- `t` without one carriage return at its end. -/
def dropReturn (t : Text) : Text := if t.getLast? = some '\r' then t.dropLast else t

/-- The lines in the pieces of a text cut at its newlines: each piece but the
last was closed by a newline, and the last is a line only if it holds something. -/
def linesOfPieces : List Text → List Text
  | [] => []
  | [last] => if last = [] then [] else [last]
  | p :: ps => dropReturn p :: linesOfPieces ps

/-- The lines of a text, each without the newline that closes it. -/
def lines (t : Text) : List Text := linesOfPieces (t.splitOn '\n')

/-- `c` breaks a line. -/
def isLineBreak (c : Char) : Bool :=
  let n := c.toNat
  (0xA ≤ n && n ≤ 0xD) || (0x1C ≤ n && n ≤ 0x1E) || n == 0x85 || n == 0x2028 || n == 0x2029

/-- The number of lines that end in `t`, counting as one the open line that `t`
leaves; `opened` says whether a line is open before `t`. -/
def lineCountFrom (opened : Bool) : Text → Nat
  | [] => opened.toNat
  | '\r' :: '\n' :: t => lineCountFrom false t + 1
  | c :: t => if isLineBreak c then lineCountFrom false t + 1 else lineCountFrom true t

/-- The number of lines of a text. -/
def lineCount (t : Text) : Nat := lineCountFrom false t

end Text

end DocLint
