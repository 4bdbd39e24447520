/-
# Writing JSON

Two layouts of one value: `compact` writes no blanks, `pretty` writes each item
and each member on a line of its own, two spaces further in than what holds it.
They differ in their blanks and in nothing else.

| layout | in front of an item, a member and the last bracket | behind a colon |
| --- | --- | --- |
| `compact` | nothing | nothing |
| `pretty` | a newline and the spaces of the depth | a space |

| character | in a string |
| --- | --- |
| `"` and `\` | with `\` in front |
| U+0008, U+0009, U+000A, U+000C, U+000D | `\b`, `\t`, `\n`, `\f`, `\r` |
| any other below U+0020 | `\u00` and two lower-case hexadecimal digits |
| any other | itself |
-/

import DocLint.Json.Basic

namespace DocLint

namespace Json

/-- A character as it is written within a string. -/
def escapeChar (c : Char) : Text :=
  if c = '"' then ['\\', '"']
  else if c = '\\' then ['\\', '\\']
  else if 0x20 ≤ c.toNat then [c]
  else if c.toNat = 0x8 then ['\\', 'b']
  else if c.toNat = 0x9 then ['\\', 't']
  else if c.toNat = 0xA then ['\\', 'n']
  else if c.toNat = 0xC then ['\\', 'f']
  else if c.toNat = 0xD then ['\\', 'r']
  else ['\\', 'u', '0', '0', Nat.digitChar (c.toNat / 16), Nat.digitChar (c.toNat % 16)]

/-- A text as a string, quotes included. -/
def quote (t : Text) : Text := '"' :: t.flatMap escapeChar ++ ['"']

/-- A truth value. -/
def printBool (b : Bool) : Text := if b then "true" else "false"

/-- How a value is laid out. -/
inductive Layout
  | compact
  | pretty
deriving Repr, DecidableEq

namespace Layout

/-- What stands in front of an item or a member at a depth. -/
def lineStart : Layout → Nat → Text
  | .compact, _ => []
  | .pretty, depth => '\n' :: List.replicate (2 * depth) ' '

/-- What stands between the colon of a member and its value. -/
def behindColon : Layout → Text
  | .compact => []
  | .pretty => [' ']

end Layout

section Print

variable (layout : Layout)

mutual

/-- A value in a layout, its first line already begun at `depth`. -/
def printAt (depth : Nat) : Json → Text
  | .null => "null"
  | .bool b => printBool b
  | .number n => Text.ofNat n
  | .string t => quote t
  | .array [] => ['[', ']']
  | .array (v :: items) =>
    '[' :: printItems (depth + 1) (v :: items) ++ layout.lineStart depth ++ [']']
  | .object [] => ['{', '}']
  | .object (m :: members) =>
    '{' :: printMembers (depth + 1) (m :: members) ++ layout.lineStart depth ++ ['}']

/-- Items with commas between them. -/
def printItems (depth : Nat) : List Json → Text
  | [] => []
  | [v] => layout.lineStart depth ++ printAt depth v
  | v :: items => layout.lineStart depth ++ printAt depth v ++ ',' :: printItems depth items

/-- Members with commas between them. -/
def printMembers (depth : Nat) : List (Text × Json) → Text
  | [] => []
  | [(key, v)] =>
    layout.lineStart depth ++ quote key ++ ':' :: layout.behindColon ++ printAt depth v
  | (key, v) :: members =>
    layout.lineStart depth ++ quote key ++ ':' :: layout.behindColon ++ printAt depth v ++
      ',' :: printMembers depth members

end

/-- A value in a layout. -/
def print (v : Json) : Text := printAt layout 0 v

end Print

/-- A value without blanks. -/
def compact (v : Json) : Text := print .compact v

/-- A value laid out over lines. -/
def pretty (v : Json) : Text := print .pretty v

end Json

end DocLint
