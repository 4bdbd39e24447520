/-
# Output formats

`OutputFormat` and `format_report`, SPEC_FULL.md §10.5.

The three formats of a report, and the words that name them.  Two of them print
any report, JSON only one whose paths are UTF-8.
-/

import DocLint.Render.Data
import DocLint.Render.Lines
import DocLint.Render.Sarif

namespace DocLint

/-- The format of a report. -/
inductive Format
  | text
  | json
  | sarif
deriving Repr, DecidableEq

namespace Format

/-- The formats by the words that name them. -/
def byName : List (Bytes × Format) := [("text", .text), ("json", .json), ("sarif", .sarif)]

/-- The format that a word names; case matters. -/
def ofName? (name : Bytes) : Option Format := byName.lookup name

end Format

/-- A report in a format; none where the format cannot hold it. -/
def Report.format? (r : Report) (color : Bool) : Format → Option Text
  | .text => some (Render.lines color r)
  | .json => Render.json? r
  | .sarif => some (Render.sarif r)

end DocLint
