/-
# TOML values

A document is a table, and a table is a list of keys with values, in the order
in which they were written.  A table remembers how it came to be, since that
decides who may still add to it:

| table | made by | a header may add | a dotted key may add |
| --- | --- | --- | --- |
| `section` | its own header | tables below it | no |
| `implied` | the header of a table below it | tables below it, its own header once | tables below it |
| `dotted` | a dotted key | tables below it | yes |
| `inline` | braces | no | no |

An array written in brackets is closed (`array`); one made by `[[…]]` headers
grows, and its latest table is open (`tables`).

A number may have the form of one and no value, such as `1e400`.  A document may
hold it (`invalid`), but nobody can read it or what it stands in (`isValid`).
-/

import DocLint.Association
import DocLint.Text

namespace DocLint

namespace Toml

/-- How a table came to be. -/
inductive TableOrigin
  | section
  | implied
  | dotted
  | inline
deriving Repr, DecidableEq

/-- A TOML value.  Floats, times and numbers without a value are kept as they are
written. -/
inductive Value
  | string (t : Text)
  | integer (n : Int)
  | float (written : Text)
  | invalid (written : Text)
  | boolean (b : Bool)
  | dateTime (written : Text)
  | array (items : List Value)
  | table (origin : TableOrigin) (fields : List (Text × Value))
  /-- The tables of an array of headers: the last one, and those before it from
  right to left. -/
  | tables (latest : List (Text × Value)) (earlier : List (List (Text × Value)))
deriving Repr, Inhabited

/-- The keys of a table with their values. -/
abbrev Fields := List (Text × Value)

namespace Value

mutual

/-- Every number in a value has a value itself. -/
def isValid : Value → Bool
  | .string _ | .integer _ | .float _ | .boolean _ | .dateTime _ => true
  | .invalid _ => false
  | .array items => areValid items
  | .table _ fields => fieldsAreValid fields
  | .tables latest earlier => fieldsAreValid latest && tablesAreValid earlier

/-- All items are valid. -/
def areValid : List Value → Bool
  | [] => true
  | v :: items => isValid v && areValid items

/-- All fields have valid values. -/
def fieldsAreValid : List (Text × Value) → Bool
  | [] => true
  | (_, v) :: fields => isValid v && fieldsAreValid fields

/-- All tables have valid values. -/
def tablesAreValid : List (List (Text × Value)) → Bool
  | [] => true
  | fields :: rest => fieldsAreValid fields && tablesAreValid rest

end

/-- A table is valid where each of its values is, so one number without a value spoils it. -/
theorem fieldsAreValid_iff {fields : List (Text × Value)} :
    fieldsAreValid fields ↔ ∀ f ∈ fields, isValid f.2 := by
  induction fields with
  | nil => simp [fieldsAreValid]
  | cons f fields ih => simp [fieldsAreValid, ih]

end Value

namespace Fields

/-- The value of a key. -/
def get? (fields : Fields) (key : Text) : Option Value := fields.lookup key

/-- `fields` with `key` set to `value`; a new key comes last. -/
def set (key : Text) (value : Value) (fields : Fields) : Fields :=
  Association.set key value fields

/-- **A look-up after a write** sees the value written under its key, and under
every other key what was there before. -/
theorem get?_set (key other : Text) (value : Value) (fields : Fields) :
    get? (set key value fields) other = if other = key then some value else get? fields other :=
  Association.lookup_set key other value fields

end Fields

end Toml

end DocLint
