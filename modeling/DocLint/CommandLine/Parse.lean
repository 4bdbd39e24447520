/-
# Reading a command line

`parse_for`, SPEC_FULL.md §10.6.

Words are read from left to right.

| word | read as |
| --- | --- |
| `--` | every word behind it is a positional argument |
| `--name`, `--name=value` | a long option |
| `-abc` | short options; the rest of the word behind `f`, less one `=`, is its value |
| any other, `-` included | the value that an option waits for, else a positional argument |

A value within the word of its option is judged at once.  A value that is a word
of its own, and the root, stay pending: they are judged when the next option or
positional argument is accepted, or at the end, so that a word that means
nothing is found first.  Of several faults of one option a missing value comes
before a repeated option, and that before an invalid value.
-/

import DocLint.CommandLine.Options

namespace DocLint

namespace CommandLine

/-- The byte of the hyphen, which opens options. -/
def hyphen : UInt8 := 0x2D

/-- The byte of the equals sign, which stands between an option and its value. -/
def equals : UInt8 := 0x3D

/-- What has been read of a command line. -/
structure Reading where
  root : Option Path := none
  format : Option Format := none
  config : Option Path := none
  listRules : Bool := false
  verbose : Bool := false
  /-- What was named but not yet judged, with its value if there was one. -/
  pending : Option (Slot × Option Bytes) := none
  /-- A root has been named. -/
  rootNamed : Bool := false
  /-- Only positional arguments follow. -/
  positionalOnly : Bool := false
deriving Repr, DecidableEq

namespace Reading

/-- Judges the value of an option and keeps it. -/
def store (r : Reading) (slot : Slot) (value : Bytes) : Except Stop Reading :=
  match slot with
  | .root =>
    if r.root.isSome then .error .argumentConflict
    else if value = [] then .error .invalidValue
    else .ok { r with root := some value }
  | .format =>
    if r.format.isSome then .error .argumentConflict
    else
      match Format.ofName? value with
      | none => .error .invalidValue
      | some format => .ok { r with format := some format }
  | .config =>
    if r.config.isSome then .error .argumentConflict
    else if value = [] then .error .invalidValue
    else .ok { r with config := some value }

/-- Judges what is pending. -/
def settle (r : Reading) : Except Stop Reading :=
  match r.pending with
  | none => .ok r
  | some (_, none) => .error .invalidValue
  | some (slot, some value) => { r with pending := none }.store slot value

/-- Reads an option whose value stands in the same word. -/
def attach (r : Reading) (slot : Slot) (value : Bytes) : Except Stop Reading :=
  match r.settle with
  | .error stop => .error stop
  | .ok r => r.store slot value

/-- Reads an option whose value is the next word. -/
def await (r : Reading) (slot : Slot) : Except Stop Reading :=
  match r.settle with
  | .error stop => .error stop
  | .ok r => .ok { r with pending := some (slot, none) }

/-- Reads a switch. -/
def turnOn (r : Reading) (switch : Switch) : Except Stop Reading :=
  match r.settle with
  | .error stop => .error stop
  | .ok r =>
    match switch with
    | .listRules =>
      if r.listRules then .error .argumentConflict else .ok { r with listRules := true }
    | .verbose => if r.verbose then .error .argumentConflict else .ok { r with verbose := true }

/-- Ends the reading, unless what is pending ends it otherwise. -/
def halt (r : Reading) (stop : Stop) : Except Stop Reading :=
  match r.settle with
  | .error earlier => .error earlier
  | .ok _ => .error stop

/-- Reads a long option, its hyphens left out. -/
def long (r : Reading) (word : Bytes) : Except Stop Reading :=
  let (name, value?) :=
    match Text.splitFirst equals word with
    | some (name, value) => (name, some value)
    | none => (word, none)
  match Meaning.long? name, value? with
  | none, _ => .error .unknownArgument
  | some (.slot slot), some value => r.attach slot value
  | some (.slot slot), none => r.await slot
  | some _, some _ => .error .tooManyValues
  | some (.switch switch), none => r.turnOn switch
  | some .help, none => r.halt (.help true)
  | some .version, none => r.halt .version

/-- A value without one equals sign in front. -/
def dropEquals : Bytes → Bytes
  | [] => []
  | c :: t => if c = equals then t else c :: t

/-- Reads a word of short options, its hyphen left out. -/
def short (r : Reading) : Bytes → Except Stop Reading
  | [] => .ok r
  | c :: rest =>
    match Meaning.short? c with
    | none => .error .unknownArgument
    | some (.slot slot) => if rest = [] then r.await slot else r.attach slot (dropEquals rest)
    | some (.switch switch) =>
      match r.turnOn switch with
      | .error stop => .error stop
      | .ok r => r.short rest
    | some .help => r.halt (.help false)
    | some .version => r.halt .version

/-- Reads a positional argument. -/
def positional (r : Reading) (word : Bytes) : Except Stop Reading :=
  if r.rootNamed then .error .unknownArgument
  else
    match r.settle with
    | .error stop => .error stop
    | .ok r => .ok { r with pending := some (.root, some word), rootNamed := true }

/-- Reads a word that is no option. -/
def plain (r : Reading) (word : Bytes) : Except Stop Reading :=
  match r.pending with
  | some (slot, none) => .ok { r with pending := some (slot, some word) }
  | _ => r.positional word

/-- Reads one word. -/
def word (r : Reading) (w : Bytes) : Except Stop Reading :=
  if r.positionalOnly then r.positional w
  else
    match w with
    | c :: d :: rest =>
      if c ≠ hyphen then r.plain w
      else if d ≠ hyphen then r.short (d :: rest)
      else if rest = [] then .ok { r with positionalOnly := true }
      else r.long rest
    | _ => r.plain w

/-- The options that have been read. -/
def options (r : Reading) : Options :=
  ⟨r.root, r.format.getD .text, r.config, r.listRules, r.verbose⟩

end Reading

/-- The options that a command line asks for. -/
def parse (args : List Bytes) : Except Stop Options := do
  let r ← args.foldlM Reading.word {}
  let r ← r.settle
  return r.options

end CommandLine

end DocLint
