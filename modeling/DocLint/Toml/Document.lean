/-
# TOML documents

From tokens to lines, and from lines to the table of a document.

| line | form |
| --- | --- |
| `assign` | key, `=`, value |
| `header` | `[`, key, `]` |
| `arrayHeader` | `[[`, key, `]]` |

A key is one part or several with dots between them.  Spaces may stand around
everything but the doubled brackets; newlines and comments only between the
items of arrays and anywhere between the parts of an inline table.  Arrays and
inline tables are nested 80 deep at most, and a key has 80 parts at most,
however deep it stands.

An unquoted value goes on over the spaces in front of a bare word, since a space
may join a date to its time; whether the whole has the form of a value is asked
of all of it.
-/

import DocLint.Toml.DateTime
import DocLint.Toml.Number
import DocLint.Toml.Table
import DocLint.Toml.Token

namespace DocLint

namespace Toml

/-- How deep arrays and inline tables may be nested. -/
def maxDepth : Nat := 80

/-- How many parts a key may have. -/
def maxKeyParts : Nat := 80

/-- A line of a document that is not blank. -/
inductive Line
  | assign (key : List Text) (value : Value)
  | header (key : List Text)
  | arrayHeader (key : List Text)
deriving Repr

namespace Parse

/-- `c` may stand in a bare key. -/
def isKeyChar (c : Char) : Bool := c.isAlphanum || c == '_' || c == '-'

/-- The part of a key that a token spells. -/
def keyPart? : Token → Option Text
  | .bare t => if t.all isKeyChar then some t else none
  | .quoted t => some t
  | _ => none

/-- The key of `most` parts at most that the tokens begin with, and what follows
it and its spaces. -/
def keyUpTo? : Nat → List Token → Option (List Text × List Token)
  | 0, _ => none
  | _, [] => none
  | most + 1, token :: ts =>
    match keyPart? token with
    | none => none
    | some part =>
      match Token.skipSpaces ts with
      | .dot :: ts =>
        (keyUpTo? most (Token.skipSpaces ts)).map fun (parts, ts) => (part :: parts, ts)
      | ts => some ([part], ts)

/-- The key that the tokens begin with, and what follows it and its spaces. -/
def key? (ts : List Token) : Option (List Text × List Token) := keyUpTo? maxKeyParts ts

/-- The longest run of bare words and dots at the front, as it is written, with
the spaces in front of bare words. -/
def word : List Token → Text × List Token
  | .bare t :: ts =>
    let (rest, ts) := word ts
    (t ++ rest, ts)
  | .dot :: ts =>
    let (rest, ts) := word ts
    ('.' :: rest, ts)
  | .spaces s :: .bare t :: ts =>
    let (rest, ts) := word ts
    (s ++ t ++ rest, ts)
  | ts => ([], ts)

/-- The value that a word spells. -/
def ofWord? (t : Text) : Option Value :=
  if t = ['t', 'r', 'u', 'e'] then some (.boolean true)
  else if t = ['f', 'a', 'l', 's', 'e'] then some (.boolean false)
  else
    match Number.integer? t with
    | some value => some value
    | none => if DateTime.isDateTime t then some (.dateTime t) else Number.float? t

/-- The unquoted value that the tokens begin with. -/
def bareValue? (ts : List Token) : Option (Value × List Token) :=
  let (t, ts) := word ts
  (ofWord? t).map (·, ts)

mutual

/-- The value that the tokens begin with, and what follows it. -/
def value? : Nat → Nat → List Token → Option (Value × List Token)
  | 0, _, _ => none
  | _, _, [] => none
  | _ + 1, _, .quoted t :: ts => some (.string t, ts)
  | _ + 1, _, .multiline t :: ts => some (.string t, ts)
  | _ + 1, 0, .openBracket :: _ => none
  | fuel + 1, depth + 1, .openBracket :: ts =>
    (items? fuel depth ts).map fun (items, ts) => (.array items, ts)
  | _ + 1, 0, .openBrace :: _ => none
  | fuel + 1, depth + 1, .openBrace :: ts =>
    (members? fuel depth [] ts).map fun (fields, ts) => (.table .inline fields, ts)
  | _ + 1, _, ts => bareValue? ts

/-- The items of an array up to its closing bracket, from behind its opening
bracket or a comma. -/
def items? : Nat → Nat → List Token → Option (List Value × List Token)
  | 0, _, _ => none
  | fuel + 1, depth, ts =>
    match Token.skipBlanks ts with
    | .closeBracket :: ts => some ([], ts)
    | ts =>
      match value? fuel depth ts with
      | none => none
      | some (item, ts) =>
        match Token.skipBlanks ts with
        | .comma :: ts => (items? fuel depth ts).map fun (items, ts) => (item :: items, ts)
        | .closeBracket :: ts => some ([item], ts)
        | _ => none

/-- `fields` with the members of an inline table up to its closing brace, from
behind its opening brace or a comma. -/
def members? : Nat → Nat → Fields → List Token → Option (Fields × List Token)
  | 0, _, _, _ => none
  | fuel + 1, depth, fields, ts =>
    match Token.skipBlanks ts with
    | .closeBrace :: ts => some (fields, ts)
    | ts =>
      match key? ts with
      | none => none
      | some (key, ts) =>
        match Token.skipBlanks ts with
        | .equals :: ts =>
          match value? fuel depth (Token.skipBlanks ts) with
          | none => none
          | some (value, ts) =>
            match fields.assign value key with
            | none => none
            | some fields =>
              match Token.skipBlanks ts with
              | .comma :: ts => members? fuel depth fields ts
              | .closeBrace :: ts => some (fields, ts)
              | _ => none
        | _ => none

end

/-- What follows the end of a line. -/
def afterLine? (ts : List Token) : Option (List Token) :=
  match Token.skipSpaces ts with
  | [] => some []
  | .newline :: ts => some ts
  | .comment :: ts => some ts
  | _ => none

/-- The line that the tokens begin with, and what follows its last part. -/
def line? (fuel : Nat) : List Token → Option (Line × List Token)
  | .openBracket :: .openBracket :: ts =>
    match key? (Token.skipSpaces ts) with
    | some (key, .closeBracket :: .closeBracket :: ts) => some (.arrayHeader key, ts)
    | _ => none
  | .openBracket :: ts =>
    match key? (Token.skipSpaces ts) with
    | some (key, .closeBracket :: ts) => some (.header key, ts)
    | _ => none
  | ts =>
    match key? ts with
    | some (key, .equals :: ts) =>
      (value? fuel maxDepth (Token.skipSpaces ts)).map fun (value, ts) => (.assign key value, ts)
    | _ => none

/-- The lines of a document. -/
def lines? : Nat → List Token → Option (List Line)
  | 0, _ => none
  | fuel + 1, ts =>
    match Token.skipBlanks ts with
    | [] => some []
    | ts =>
      match line? fuel ts with
      | none => none
      | some (line, ts) =>
        match afterLine? ts with
        | none => none
        | some ts => (lines? fuel ts).map (line :: ·)

end Parse

/-- The table of a document so far, and the header under which its next lines
stand. -/
structure Draft where
  top : Fields
  header : List Text

namespace Draft

/-- The draft with one line more. -/
def add (d : Draft) : Line → Option Draft
  | .assign key value => (d.top.within (Fields.assign value key) d.header).map (⟨·, d.header⟩)
  | .header key =>
    key.getLast?.bind fun last =>
      (d.top.within (Fields.openTable last) key.dropLast).map (⟨·, key⟩)
  | .arrayHeader key =>
    key.getLast?.bind fun last =>
      (d.top.within (Fields.appendTable last) key.dropLast).map (⟨·, key⟩)

end Draft

/-- The table that lines build; none where a line breaks a rule. -/
def ofLines? (lines : List Line) : Option Fields :=
  (lines.foldlM Draft.add ⟨[], []⟩).map (·.top)

/-- A text without the mark that may stand in front of it. -/
def dropByteOrderMark (t : Text) : Text :=
  match t with
  | c :: rest => if c = Char.ofNat 0xFEFF then rest else t
  | [] => []

/-- The table of a document; none where it is not a TOML document.  Every step
takes a token, so that there is fuel enough. -/
def parse? (t : Text) : Option Fields :=
  (Token.scan (dropByteOrderMark t)).bind fun ts =>
    (Parse.lines? (ts.length + 1) ts).bind ofLines?

end Toml

end DocLint
