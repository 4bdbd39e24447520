/-
# Running a command

`run`, `execute` and `print_rules`, SPEC_FULL.md §4.5 and §10.6.

What a command prints, and the code with which it ends.

| case | code | standard output | standard error |
| --- | ---: | --- | --- |
| help, version, list of rules | 0 | the text asked for | |
| bad command line | 2 | | what is wrong |
| settings cannot be loaded | 2 | | `Error: ` and why |
| root cannot be looked through | 2 | `P0 ` and why | |
| nothing found | 0 | the report | |
| something found | 1 | the report | |
| the report cannot be written in the format | 101 | | that the command broke off |

The rules are listed before any file is looked at.  What is complained of is kept
as data (`Complaint`).  The words are for the outer layer to choose (`Wording`):
those for a bad command line, for a document that is not TOML and for breaking off
belong to the libraries that find the fault.
-/

import DocLint.Catalogue
import DocLint.CommandLine.Help
import DocLint.CommandLine.Parse
import DocLint.Lint
import DocLint.Settings.Load

namespace DocLint

namespace CommandLine

/-- What a command has to complain of on the standard error stream. -/
inductive Complaint
  | usage (stop : Stop)
  | settings (error : SettingsError)
  /-- The report could not be written down. -/
  | panic
deriving Repr, DecidableEq

/-- How a command ends. -/
structure Outcome where
  exitCode : Nat
  stdout : Text
  stderr : Option Complaint
deriving Repr, DecidableEq

/-- The exit code of a command that could not do its work. -/
def fatal : Nat := 2

/-- The exit code of a command that breaks off. -/
def brokenOff : Nat := 101

/-- The lines that list a rule. -/
def ruleLines (color : Bool) (r : Rule) : List Text :=
  ["  [" ++ r.severity.tag ++ "] " ++ Text.padRight 30 r.id ++ " " ++ r.message,
    Text.padRight 38 [] ++ Style.dimmed.paint color r.remediation]

/-- The list of the rules for a kind. -/
def ruleList (color : Bool) (kind : Kind) : Text :=
  let rules := Catalogue.rulesFor kind
  let head : List Text := [Style.title.paint color (kind.commandName ++ " rules"), []]
  let foot : List Text := [[], "  Total: " ++ Text.ofNat rules.length ++ " rules"]
  unlines (head ++ rules.flatMap (ruleLines color) ++ foot)

/-- Does what the options ask for. -/
def execute (fs : FileSystem) (kind : Kind) (color : Bool) (timestamp : Text) (o : Options) :
    Outcome :=
  if o.listRules then ⟨0, ruleList color kind, none⟩
  else
    match Settings.load fs o.config with
    | .error e => ⟨fatal, [], some (.settings e)⟩
    | .ok settings =>
      match Lint.run fs settings kind (o.root.getD (settings.rootFor kind)) timestamp with
      | .error e => ⟨fatal, "P0 " ++ e.message ++ "\n", none⟩
      | .ok report =>
        match report.format? color o.format with
        | some text => ⟨report.exitCode, text, none⟩
        | none => ⟨brokenOff, [], some .panic⟩

/-- The outcome of a command line that asks for no run. -/
def stopped (kind : Kind) (color : Bool) : Stop → Outcome
  | .help long => ⟨0, help color kind long, none⟩
  | .version => ⟨0, versionLine kind, none⟩
  | stop => ⟨fatal, [], some (.usage stop)⟩

/-- Runs the command of a kind. -/
def run (fs : FileSystem) (kind : Kind) (color : Bool) (timestamp : Text) (args : List Bytes) :
    Outcome :=
  match parse args with
  | .error stop => stopped kind color stop
  | .ok options => execute fs kind color timestamp options

/-- The words in which the libraries complain. -/
structure Wording where
  usage : Stop → Text
  malformed : Text
  panic : Text

/-- A complaint in words. -/
def Complaint.text (w : Wording) : Complaint → Text
  | .usage stop => w.usage stop
  | .settings e => "Error: " ++ e.message w.malformed ++ "\n"
  | .panic => w.panic

end CommandLine

end DocLint
