/-
# Command-line options

The arguments of `validate-prompts` and `validate-skills`, SPEC_FULL.md §6 and §10.6.

What a command line can ask for, and the ways in which it can end without
asking for a run.  Words are bytes, as the system hands them over: a path among
them need not be UTF-8.

| word | meaning |
| --- | --- |
| `ROOT` | the directory to look through |
| `--format`, `-f` | the output format, `text` if not given |
| `--config` | the settings file |
| `--list-rules` | list the rules instead |
| `--verbose`, `-v` | say more on the standard error stream |
| `--help`, `-h` | print help instead |
| `--version`, `-V` | print the version instead |
-/

import DocLint.Path
import DocLint.Render.Format

namespace DocLint

namespace CommandLine

/-- What a command line asks for. -/
structure Options where
  root : Option Path := none
  format : Format := .text
  config : Option Path := none
  listRules : Bool := false
  verbose : Bool := false
deriving Repr, DecidableEq

/-- Why a command line asks for no run. -/
inductive Stop
  | unknownArgument
  | invalidValue
  | argumentConflict
  | tooManyValues
  | help (long : Bool)
  | version
deriving Repr, DecidableEq

/-- What takes a value. -/
inductive Slot
  | root
  | format
  | config
deriving Repr, DecidableEq

/-- What is on or off. -/
inductive Switch
  | listRules
  | verbose
deriving Repr, DecidableEq

/-- What an option word stands for. -/
inductive Meaning
  | slot (s : Slot)
  | switch (s : Switch)
  | help
  | version
deriving Repr, DecidableEq

namespace Meaning

/-- The long words, without their hyphens.  They are not abbreviated. -/
def long? (name : Bytes) : Option Meaning :=
  [(("format" : Bytes), slot .format), ("config", slot .config), ("list-rules", switch .listRules),
    ("verbose", switch .verbose), ("help", help), ("version", version)].lookup name

/-- The byte of `f`. -/
def shortFormat : UInt8 := 0x66

/-- The byte of `v`. -/
def shortVerbose : UInt8 := 0x76

/-- The short words, without their hyphen: `f`, `v`, `h` and `V`. -/
def short? (c : UInt8) : Option Meaning :=
  [(shortFormat, slot .format), (shortVerbose, switch .verbose), (0x68, help),
    (0x56, version)].lookup c

end Meaning

end CommandLine

end DocLint
