/-
# JSON values

The values that reports are written as.  An object keeps its members in the
order in which they are written.  A value is taken apart by look-ups, of which
each has an answer in one form of value only.
-/

import DocLint.Text

namespace DocLint

/-- A JSON value; its numbers are natural. -/
inductive Json
  | null
  | bool (b : Bool)
  | number (n : Nat)
  | string (t : Text)
  | array (items : List Json)
  | object (members : List (Text × Json))
deriving Repr, Inhabited

namespace Json

/-- The text, or `null` where there is none. -/
def ofText? : Option Text → Json
  | some t => .string t
  | none => .null

/-- The member of an object under a key. -/
def member? (v : Json) (key : Text) : Option Json :=
  match v with
  | .object members => members.lookup key
  | _ => none

/-- The item of an array at an index. -/
def item? (v : Json) (index : Nat) : Option Json :=
  match v with
  | .array items => items[index]?
  | _ => none

/-- The value that is reached through one object after the other. -/
def memberAt? (v : Json) (keys : List Text) : Option Json := keys.foldlM member? v

end Json

end DocLint
