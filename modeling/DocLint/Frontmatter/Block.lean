/-
# Frontmatter blocks

`extract`, `strip_quotes` and `to_block`, SPEC_FULL.md §4.1 and §10.1.

The metadata block that opens a document, and the mapping it holds.

| part | rule |
| --- | --- |
| opening | the text starts with `---` |
| block | what follows, up to the first newline with `---` behind it |
| field | a line with a colon: key before the first colon, value behind it, both trimmed |
| other lines | skipped |
| one key twice | the later field holds |

The block is absent without an opening or without a closing; an empty block is
an empty mapping.  Prompts drop one layer of quotes from a value, skills keep
values as written (`QuoteMode`).
-/

import DocLint.Frontmatter.Basic
import DocLint.Text.Blank
import DocLint.Text.Line

namespace DocLint

/-- What becomes of quotes around a value. -/
inductive QuoteMode
  /-- One surrounding pair of equal quotes is dropped. -/
  | strip
  /-- Values stay as written. -/
  | preserve
deriving Repr, DecidableEq

/-- `c` is a single or a double quote. -/
def isQuote (c : Char) : Bool := c == '"' || c == '\''

/-- `value` without one pair of equal quotes around it. -/
def stripQuotes : Text → Text
  | [] => []
  | q :: rest => if isQuote q ∧ rest.getLast? = some q then rest.dropLast else q :: rest

/-- **One layer goes, and only one:** between quotes any text is kept, further quotes included.
-/
theorem stripQuotes_quoted {q : Char} (h : isQuote q) (t : Text) :
    stripQuotes (q :: t ++ [q]) = t := by
  simp [stripQuotes, h]

/-- The value that a trimmed field value stands for. -/
def QuoteMode.value : QuoteMode → Text → Text
  | .strip, v => stripQuotes v
  | .preserve, v => v

namespace Frontmatter

/-- The characters that open a block. -/
def opening : Text := ['-', '-', '-']

/-- The characters that close a block. -/
def closing : Text := ['\n', '-', '-', '-']

/-- The block of a text: what stands between its opening and its first closing. -/
def block? (t : Text) : Option Text :=
  if opening.isPrefixOf t then Text.before? closing (t.drop opening.length) else none

/-- The key and the value on a line; none on a line without a colon. -/
def field? (mode : QuoteMode) (line : Text) : Option (Text × Text) :=
  (Text.splitFirst ':' line).map fun (key, value) => (Text.trim key, mode.value (Text.trim value))

/-- The mapping that a block holds. -/
def ofBlock (mode : QuoteMode) (block : Text) : Frontmatter :=
  ofList ((Text.lines (Text.strip (· == '\n') block)).filterMap (field? mode))

/-- The frontmatter of a text, if it has a block. -/
def extract (mode : QuoteMode) (t : Text) : Option Frontmatter := (block? t).map (ofBlock mode)

/-- The line of one field. -/
def fieldLine (f : Text × Text) : Text := f.1 ++ [':', ' '] ++ f.2 ++ ['\n']

/-- The mapping written as a block. -/
def toBlock (m : Frontmatter) : Text :=
  opening ++ ['\n'] ++ m.fields.flatMap fieldLine ++ opening ++ ['\n']

/-- Both modes find frontmatter in the same texts: where there is a block. -/
theorem isSome_extract (mode : QuoteMode) (t : Text) :
    (extract mode t).isSome = (block? t).isSome := by
  simp [extract]

end Frontmatter

end DocLint
