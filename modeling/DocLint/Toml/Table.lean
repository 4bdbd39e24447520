/-
# Building TOML tables

How the lines of a document add to its tables.  A key is written once; a table
is opened by a header once; what braces or brackets have closed stays closed.

| line | rule |
| --- | --- |
| `a.b.c = v` | `a` and `b` are made where missing, and `b` must be a table of dotted keys |
| `[a.b]` | `a` is made where missing; `b` must be missing or only implied |
| `[[a.b]]` | `a` is made where missing; `b` must be missing or an array of such headers |

Where an array of `[[…]]` headers stands on the way, its last table is meant.
-/

import DocLint.Toml.Value

namespace DocLint

namespace Toml

namespace Fields

/-- Writes `value` under a dotted key. -/
def assign (value : Value) : List Text → Fields → Option Fields
  | [], _ => none
  | [key], fields =>
    match fields.get? key with
    | none => some (fields.set key value)
    | some _ => none
  | key :: rest, fields =>
    match fields.get? key with
    | none => (assign value rest []).map fun below => fields.set key (.table .dotted below)
    | some (.table .dotted below) =>
      (assign value rest below).map fun below => fields.set key (.table .dotted below)
    | some (.table .implied below) =>
      if rest.length = 1 then none
      else (assign value rest below).map fun below => fields.set key (.table .implied below)
    | some (.tables latest earlier) =>
      if rest.length = 1 then none
      else (assign value rest latest).map fun latest => fields.set key (.tables latest earlier)
    | some _ => none

/-- Changes the table that `path` leads to, seen from a header; tables that are
missing on the way are made. -/
def within (change : Fields → Option Fields) : List Text → Fields → Option Fields
  | [], fields => change fields
  | key :: path, fields =>
    match fields.get? key with
    | none => (within change path []).map fun below => fields.set key (.table .implied below)
    | some (.table .inline _) => none
    | some (.table origin below) =>
      (within change path below).map fun below => fields.set key (.table origin below)
    | some (.tables latest earlier) =>
      (within change path latest).map fun latest => fields.set key (.tables latest earlier)
    | some _ => none

/-- Opens the table `key` by its header. -/
def openTable (key : Text) (fields : Fields) : Option Fields :=
  match fields.get? key with
  | none => some (fields.set key (.table .section []))
  | some (.table .implied below) => some (fields.set key (.table .section below))
  | some _ => none

/-- Adds a table to the array `key` by a header. -/
def appendTable (key : Text) (fields : Fields) : Option Fields :=
  match fields.get? key with
  | none => some (fields.set key (.tables [] []))
  | some (.tables latest earlier) => some (fields.set key (.tables [] (latest :: earlier)))
  | some _ => none

end Fields

end Toml

end DocLint
