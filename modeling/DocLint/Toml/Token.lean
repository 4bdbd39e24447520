/-
# TOML tokens

A document is cut into tokens without regard to what stands before them: a
quote starts a string, `#` a comment, and a run of characters that start
nothing else is a bare word, be it a key, a number or nonsense.

| token | characters |
| --- | --- |
| punctuation | `.` `=` `,` `[` `]` `{` `}` |
| `spaces` | spaces and tabs |
| `newline` | U+000A, or U+000D and U+000A |
| `comment` | from `#` to the end of the line |
| `quoted` | a string on one line |
| `multiline` | a string in triple quotes |
| `bare` | any other run |
-/

import DocLint.Toml.Quoted

namespace DocLint

namespace Toml

/-- A piece of a document. -/
inductive Token
  | dot
  | equals
  | comma
  | openBracket
  | closeBracket
  | openBrace
  | closeBrace
  | spaces (written : Text)
  | newline
  | comment
  | quoted (t : Text)
  | multiline (t : Text)
  | bare (written : Text)
deriving Repr, DecidableEq

namespace Token

/-- `c` ends a bare word. -/
def endsBare (c : Char) : Bool :=
  isSpace c || c == '.' || c == '=' || c == ',' || c == '[' || c == ']' || c == '{' || c == '}' ||
    c == '#' || c == '\r' || c == '\n'

/-- A string token, or none where the string is ill-formed. -/
def ofString? (token : Text → Token) (reading : Option (Text × Text)) : Option (Token × Text) :=
  reading.map fun (t, rest) => (token t, rest)

/-- The first token of a text, and what follows it. -/
def next? : Text → Option (Token × Text)
  | [] => none
  | '.' :: t => some (.dot, t)
  | '=' :: t => some (.equals, t)
  | ',' :: t => some (.comma, t)
  | '[' :: t => some (.openBracket, t)
  | ']' :: t => some (.closeBracket, t)
  | '{' :: t => some (.openBrace, t)
  | '}' :: t => some (.closeBrace, t)
  | '\n' :: t => some (.newline, t)
  | '\r' :: '\n' :: t => some (.newline, t)
  | '#' :: t =>
    let isEnd (c : Char) : Bool := c == '\n' || c == '\r'
    if (t.takeWhile (!isEnd ·)).all isPrintable then some (.comment, t.dropWhile (!isEnd ·))
    else none
  | '"' :: '"' :: '"' :: t =>
    ofString? .multiline (Quoted.multilineBasic false (Quoted.dropFirstNewline t))
  | '"' :: t => ofString? .quoted (Quoted.basic t)
  | '\'' :: '\'' :: '\'' :: t =>
    ofString? .multiline (Quoted.multilineLiteral (Quoted.dropFirstNewline t))
  | '\'' :: t => ofString? .quoted (Quoted.literal t)
  | c :: t =>
    if isSpace c then some (.spaces (c :: t.takeWhile isSpace), t.dropWhile isSpace)
    else if endsBare c then none
    else some (.bare (c :: t.takeWhile (!endsBare ·)), t.dropWhile (!endsBare ·))

/-- The tokens of a text, `fuel` of them at most. -/
def scanUpTo : Nat → Text → Option (List Token)
  | _, [] => some []
  | 0, _ :: _ => none
  | fuel + 1, t =>
    match next? t with
    | none => none
    | some (token, rest) => (scanUpTo fuel rest).map (token :: ·)

/-- The tokens of a text; none where one is ill-formed.  Every token has a
character, so no more than the length of the text are needed. -/
def scan (t : Text) : Option (List Token) := scanUpTo t.length t

/-- The tokens behind spaces. -/
def skipSpaces : List Token → List Token
  | .spaces _ :: ts => ts
  | ts => ts

/-- The tokens behind spaces, newlines and comments. -/
def skipBlanks (ts : List Token) : List Token :=
  ts.dropWhile fun
    | .spaces _ | .newline | .comment => true
    | _ => false

end Token

end Toml

end DocLint
