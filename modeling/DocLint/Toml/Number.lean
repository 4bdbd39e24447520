/-
# TOML numbers

A number is accepted by its form; only its value decides whether it can be read.

| form | examples | value |
| --- | --- | --- |
| decimal integer | `0`, `+7`, `-12`, `1_000` | from -2¹²⁷ to 2¹²⁸ - 1 |
| integer in another base, without a sign | `0x1F`, `0o17`, `0b1_0` | below 2¹²⁸ |
| float | `1.5`, `-2e10`, `6.0E-3_4` | a finite 64-bit binary float |
| special float | `inf`, `-inf`, `+nan` | itself |

The form of a decimal integer is looked at up to its first underscore and around
every underscore, and that of an integer in another base does not ask for a digit:
`1_F` and `0x` have the form of integers, and no value.  An underscore joins two
digits, in an integer of any base hexadecimal ones.  A decimal number begins with
no superfluous zero.
-/

import DocLint.Toml.Quoted
import DocLint.Toml.Value

namespace DocLint

namespace Toml

namespace Number

/-- `c` is a hexadecimal digit. -/
def isHexDigit (c : Char) : Bool := (digit? 16 c).isSome

/-- `c` is a decimal digit or an underscore. -/
def isDigitOrJoint (c : Char) : Bool := c.isDigit || c == '_'

/-- Every underscore of `t` has a digit on either side; `joined` says that `t`
stands behind a digit. -/
def underscoresJoin (isDigit : Char → Bool) (joined : Bool) : Text → Bool
  | [] => true
  | '_' :: t => joined && t.head?.any isDigit && underscoresJoin isDigit false t
  | c :: t => underscoresJoin isDigit (isDigit c) t

/-- A number without its underscores. -/
def withoutJoints (t : Text) : Text := t.filter (· != '_')

/-- Takes the sign off a number: whether it is negative, and what follows. -/
def splitSign : Text → Bool × Text
  | '-' :: t => (true, t)
  | '+' :: t => (false, t)
  | t => (false, t)

/-- The number that digits spell, or `most` where it is more: however many digits
there are, no number on the way is much larger. -/
def ofDigitsUpTo? (most base : Nat) (digits : Text) : Option Nat :=
  digits.foldlM (fun n c => (digit? base c).map fun d => min most (n * base + d)) 0

/-- An integer has a value: one of 128 bits. -/
def isInRange (n : Int) : Bool := -(Nat.pow 2 127) ≤ n && n < Nat.pow 2 128

/-- The integer that is written as `written` and has the given digits. -/
def ofDigits (written : Text) (negative : Bool) (base : Nat) (digits : Text) : Value :=
  let magnitude? := if digits = [] then none else ofDigitsUpTo? (Nat.pow 2 128) base digits
  match magnitude? with
  | none => .invalid written
  | some n =>
    let n : Int := if negative then -n else n
    if isInRange n then .integer n else .invalid written

/-- The base that an integer names in front of its digits, and these. -/
def base? : Text → Option (Nat × Text)
  | '0' :: 'x' :: t => some (16, t)
  | '0' :: 'o' :: t => some (8, t)
  | '0' :: 'b' :: t => some (2, t)
  | _ => none

/-- The text can be the digits of an integer in a base, all of them or none. -/
def hasBaseForm (base : Nat) (t : Text) : Bool :=
  t.all (fun c => c == '_' || (digit? base c).isSome) && underscoresJoin isHexDigit false t

/-- `c` makes a number a float. -/
def isFloatMark (c : Char) : Bool := c == '.' || c == 'e' || c == 'E'

/-- The number, without a sign, has the form of a decimal integer: digits, and
behind them nothing, or an underscore and whatever has no space and makes no
float. -/
def hasDecimalForm (t : Text) : Bool :=
  let rest := t.dropWhile Char.isDigit
  t != [] && (rest == [] || rest.head? == some '_') &&
    !rest.any (fun c => c == ' ' || isFloatMark c) &&
    (t == ['0'] || t.head? != some '0') && underscoresJoin isHexDigit false t

/-- The integer that a text has the form of. -/
def integer? (t : Text) : Option Value :=
  match base? t with
  | some (base, digits) =>
    if hasBaseForm base digits then some (ofDigits t false base (withoutJoints digits)) else none
  | none =>
    let (negative, body) := splitSign t
    if hasDecimalForm body then some (ofDigits t negative 10 (withoutJoints body)) else none

/-- The digits that `t` begins with, at least one, and what follows them and the
underscores among them. -/
def digits? (t : Text) : Option (Text × Text) :=
  let ds := withoutJoints (t.takeWhile isDigitOrJoint)
  if ds = [] then none else some (ds, t.dropWhile isDigitOrJoint)

/-- The digits of the fraction that `t` may begin with, and what follows them. -/
def fraction? : Text → Option (Text × Text)
  | '.' :: t => digits? t
  | t => some ([], t)

/-- From this number on no further digit of an exponent counts. -/
def exponentBound : Nat := Nat.pow 2 16

/-- The number that the digits of an exponent stand for.  Once it has reached the
bound the digits that remain change nothing. -/
def ofExponentDigits? (digits : Text) : Option Nat :=
  digits.foldlM
    (fun n c => (digit? 10 c).map fun d => if n < exponentBound then n * 10 + d else n) 0

/-- The exponent that `t` is, zero where there is none. -/
def exponent? : Text → Option Int
  | [] => some 0
  | mark :: t =>
    let (negative, t) := splitSign t
    match digits? t with
    | some (digits, []) =>
      if mark = 'e' ∨ mark = 'E' then
        (ofExponentDigits? digits).map fun n => if negative then -(n : Int) else n
      else none
    | _ => none

/-- The largest 64-bit float has 309 digits before the point. -/
def maxFloatDigits : Nat := 309

/-- The least number that is rounded beyond the largest 64-bit float: half a unit
above it. -/
def overflowBound : Nat := (Nat.pow 2 54 - 1) * Nat.pow 2 970

/-- The number `digits * 10 ^ exponent` is rounded to a finite 64-bit float.  The
position of the first digit decides, except where it is that of the bound; there
the digits before the point do, since the bound is a whole number. -/
def isFinite (digits : Text) (exponent : Int) : Bool :=
  let significant := digits.dropWhile (· == '0')
  let position := significant.length + exponent
  if significant = [] ∨ position < maxFloatDigits then true
  else if maxFloatDigits < position then false
  else
    let whole := significant.take maxFloatDigits
    match ofDigits? 10 (whole ++ List.replicate (maxFloatDigits - whole.length) '0') with
    | some n => n < overflowBound
    | none => false

/-- The decimal float that the text has the form of. -/
def decimalFloat? (t : Text) : Option Value := do
  let (_, body) := splitSign t
  let (whole, rest) ← digits? body
  let (fraction, rest) ← fraction? rest
  let exponent ← exponent? rest
  if body.head? = some '0' ∧ 1 < whole.length ∨ !underscoresJoin Char.isDigit false body then none
  else if isFinite (whole ++ fraction) (exponent - fraction.length) then some (.float t)
  else some (.invalid t)

/-- The float that a text has the form of. -/
def float? (t : Text) : Option Value :=
  let (_, body) := splitSign t
  if body = ['i', 'n', 'f'] ∨ body = ['n', 'a', 'n'] then some (.float t) else decimalFloat? t

end Number

end Toml

end DocLint
