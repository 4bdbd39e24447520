/-
# TOML dates and times

| form | example |
| --- | --- |
| offset date-time | `1979-05-27T07:32:00Z`, `1979-05-27 00:32:00.99-07:00` |
| local date-time | `1979-05-27T07:32` |
| local date | `1979-05-27` |
| local time | `07:32:00.5` |

A date and a time are joined by `T`, `t` or one space.  Seconds may be left out,
and a fraction needs them.  Days must exist in the calendar; the sixtieth second
is a leap second.
-/

import DocLint.Text

namespace DocLint

namespace Toml

namespace DateTime

/-- The number that the first `count` characters spell as digits, and what
follows them. -/
def number? (count : Nat) (t : Text) : Option (Nat × Text) :=
  let ds := t.take count
  if ds.length = count ∧ ds.all Char.isDigit then
    some (ds.foldl (fun n c => n * 10 + (c.toNat - '0'.toNat)) 0, t.drop count)
  else none

/-- What follows `c`, where `t` begins with it. -/
def after? (c : Char) : Text → Option Text
  | [] => none
  | d :: t => if d = c then some t else none

/-- `year` has a twenty-ninth of February. -/
def isLeapYear (year : Nat) : Bool := year % 4 == 0 && (year % 100 != 0 || year % 400 == 0)

/-- The number of days in a month. -/
def daysIn (year month : Nat) : Nat :=
  if month = 2 then if isLeapYear year then 29 else 28
  else if month = 4 ∨ month = 6 ∨ month = 9 ∨ month = 11 then 30
  else 31

/-- What follows the date that `t` begins with. -/
def afterDate? (t : Text) : Option Text := do
  let (year, t) ← number? 4 t
  let t ← after? '-' t
  let (month, t) ← number? 2 t
  let t ← after? '-' t
  let (day, t) ← number? 2 t
  if 1 ≤ month ∧ month ≤ 12 ∧ 1 ≤ day ∧ day ≤ daysIn year month then some t else none

/-- What follows the fraction that `t` may begin with. -/
def afterFraction? (t : Text) : Option Text :=
  match t with
  | '.' :: c :: t => if c.isDigit then some (t.dropWhile Char.isDigit) else none
  | '.' :: [] => none
  | t => some t

/-- What follows the time that `t` begins with. -/
def afterTime? (t : Text) : Option Text := do
  let (hour, t) ← number? 2 t
  let t ← after? ':' t
  let (minute, t) ← number? 2 t
  if 23 < hour ∨ 59 < minute then none
  else
    match after? ':' t with
    | none => some t
    | some t =>
      let (second, t) ← number? 2 t
      if 60 < second then none else afterFraction? t

/-- `t` is nothing or the offset of a time zone. -/
def isOffset (t : Text) : Bool :=
  match t with
  | [] => true
  | ['Z'] | ['z'] => true
  | sign :: t =>
    (sign == '+' || sign == '-') &&
      match number? 2 t with
      | some (hour, ':' :: t) =>
        match number? 2 t with
        | some (minute, []) => hour ≤ 23 && minute ≤ 59
        | _ => false
      | _ => false

/-- `t` is a date, a time, or both. -/
def isDateTime (t : Text) : Bool :=
  match afterDate? t with
  | some [] => true
  | some (separator :: t) =>
    (separator == 'T' || separator == 't' || separator == ' ') &&
      match afterTime? t with
      | some t => isOffset t
      | none => false
  | none => afterTime? t == some []

end DateTime

end Toml

end DocLint
