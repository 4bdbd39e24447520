/-
# Quoted TOML strings

Four kinds of strings.  Each reader starts behind the opening quotes and returns
the text of the string with what follows its closing quotes.

| reader | quotes | escapes | newlines |
| --- | --- | --- | --- |
| `basic` | `"` | yes | no |
| `literal` | `'` | no | no |
| `multilineBasic` | `"""` | yes, and at the end of a line | yes |
| `multilineLiteral` | `'''` | no | yes |

Tabs, U+0020 … U+007E and everything from U+0080 on may stand in a string;
other control characters may not.  The three closing quotes of a multi-line
string may have one or two more in front, which belong to its text.
-/

import DocLint.Text

namespace DocLint

namespace Toml

/-- `c` may stand in strings and comments. -/
def isPrintable (c : Char) : Bool :=
  let n := c.toNat
  n == 0x9 || (0x20 ≤ n && n ≤ 0x7E) || 0x80 ≤ n

/-- `c` is a space or a tab. -/
def isSpace (c : Char) : Bool := c == ' ' || c == '\t'

/-- The value of a digit in a base up to sixteen. -/
def digit? (base : Nat) (c : Char) : Option Nat :=
  let n := c.toNat
  let value :=
    if '0'.toNat ≤ n ∧ n ≤ '9'.toNat then n - '0'.toNat
    else if 'a'.toNat ≤ n ∧ n ≤ 'f'.toNat then n - 'a'.toNat + 10
    else if 'A'.toNat ≤ n ∧ n ≤ 'F'.toNat then n - 'A'.toNat + 10
    else 16
  if value < base then some value else none

/-- The number that digits spell. -/
def ofDigits? (base : Nat) (digits : Text) : Option Nat :=
  digits.foldlM (fun n c => (digit? base c).map (n * base + ·)) 0

namespace Quoted

/-- The character that hexadecimal digits name; none for a surrogate or beyond
U+10FFFF. -/
def hexChar? (digits : Text) : Option Char :=
  (ofDigits? 16 digits).bind fun n => if n.isValidChar then some (Char.ofNat n) else none

/-- The character that stands behind a backslash in place of another. -/
def escaped? : Char → Option Char
  | 'b' => some (Char.ofNat 0x8)
  | 't' => some '\t'
  | 'n' => some '\n'
  | 'f' => some (Char.ofNat 0xC)
  | 'r' => some '\r'
  | 'e' => some (Char.ofNat 0x1B)
  | '"' => some '"'
  | '\\' => some '\\'
  | _ => none

/-- A reading with one character more in front. -/
def push (c? : Option Char) (reading : Option (Text × Text)) : Option (Text × Text) :=
  match c?, reading with
  | some c, some (t, rest) => some (c :: t, rest)
  | _, _ => none

/-- Reads a basic string. -/
def basic : Text → Option (Text × Text)
  | [] => none
  | '"' :: t => some ([], t)
  | '\\' :: 'x' :: a :: b :: t => push (hexChar? [a, b]) (basic t)
  | '\\' :: 'u' :: a :: b :: c :: d :: t => push (hexChar? [a, b, c, d]) (basic t)
  | '\\' :: 'U' :: a :: b :: c :: d :: e :: f :: g :: h :: t =>
    push (hexChar? [a, b, c, d, e, f, g, h]) (basic t)
  | '\\' :: c :: t => push (escaped? c) (basic t)
  | c :: t => if isPrintable c && c != '\\' then push (some c) (basic t) else none

/-- Reads a literal string. -/
def literal : Text → Option (Text × Text)
  | [] => none
  | '\'' :: t => some ([], t)
  | c :: t => if isPrintable c then push (some c) (literal t) else none

/-- A line ends in `t`, with nothing but spaces before its end. -/
def endsLine (t : Text) : Bool :=
  match t.dropWhile isSpace with
  | '\n' :: _ => true
  | '\r' :: '\n' :: _ => true
  | _ => false

/-- Reads a multi-line basic string.  `skip` says that the spaces and newlines
that follow are left out: they stand behind a backslash at the end of a line. -/
def multilineBasic (skip : Bool) : Text → Option (Text × Text)
  | [] => none
  | '"' :: '"' :: '"' :: '"' :: '"' :: t => some (['"', '"'], t)
  | '"' :: '"' :: '"' :: '"' :: t => some (['"'], t)
  | '"' :: '"' :: '"' :: t => some ([], t)
  | '\r' :: '\n' :: t =>
    if skip then multilineBasic true t
    else push (some '\r') (push (some '\n') (multilineBasic false t))
  | '\n' :: t => if skip then multilineBasic true t else push (some '\n') (multilineBasic false t)
  | '\\' :: 'x' :: a :: b :: t => push (hexChar? [a, b]) (multilineBasic false t)
  | '\\' :: 'u' :: a :: b :: c :: d :: t => push (hexChar? [a, b, c, d]) (multilineBasic false t)
  | '\\' :: 'U' :: a :: b :: c :: d :: e :: f :: g :: h :: t =>
    push (hexChar? [a, b, c, d, e, f, g, h]) (multilineBasic false t)
  | '\\' :: c :: t =>
    match escaped? c with
    | some c => push (some c) (multilineBasic false t)
    | none => if endsLine (c :: t) then multilineBasic true (c :: t) else none
  | c :: t =>
    if skip && isSpace c then multilineBasic true t
    else if isPrintable c && c != '\\' then push (some c) (multilineBasic false t)
    else none

/-- Reads a multi-line literal string. -/
def multilineLiteral : Text → Option (Text × Text)
  | [] => none
  | '\'' :: '\'' :: '\'' :: '\'' :: '\'' :: t => some (['\'', '\''], t)
  | '\'' :: '\'' :: '\'' :: '\'' :: t => some (['\''], t)
  | '\'' :: '\'' :: '\'' :: t => some ([], t)
  | '\r' :: '\n' :: t => push (some '\r') (push (some '\n') (multilineLiteral t))
  | '\n' :: t => push (some '\n') (multilineLiteral t)
  | c :: t => if isPrintable c then push (some c) (multilineLiteral t) else none

/-- The text of a multi-line string without the newline that follows its
opening quotes. -/
def dropFirstNewline : Text → Text
  | '\n' :: t => t
  | '\r' :: '\n' :: t => t
  | t => t

end Quoted

end Toml

end DocLint
