/-
# The commands

The program is installed under the names of its two commands and does the work
of the one it is called by.  It asks the files it will be asked about, runs the
command on the answers, prints, and exits.

The paths of the system are texts here: a name that is not UTF-8 is asked for as it
is printed, and so not found.
-/

import DocLint.CommandLine.Run
import DocLint.FileSystem.Survey
import Std.Time.DateTime

namespace DocLint

/-- The number by which the system calls an error. -/
def codeOf : IO.Error → Nat
  | .noFileOrDirectory _ code _ | .invalidArgument _ code _ | .inappropriateType _ code _
  | .permissionDenied _ code _ | .resourceExhausted _ code _ | .noSuchThing _ code _
  | .alreadyExists _ code _ | .otherError code _ => code.toNat
  | _ => 0

/-- The file error of an error of the system. -/
def faultOf (e : IO.Error) : FileError :=
  match codeOf e with
  | 20 => .notADirectory
  | 21 => .isADirectory
  | 36 => .nameTooLong
  | 40 => .tooManyLinks
  | _ => .notFound

/-- Asks what a path leads to, and which names are there. -/
def askKind (s : Survey) (path : Path) : IO Survey := do
  if path = [] ∨ 0 ∈ path then return s
  let place := (← IO.currentDir) / String.ofList path.display
  try
    match (← place.metadata).type with
    | .dir =>
      let entries ← place.readDir
      let names := entries.toList.map fun entry => Utf8.encode entry.fileName.toList
      return (s.addKind path .directory).addListing path names
    | _ => return s.addKind path .file
  catch _ => return s

/-- Asks for the bytes of the file that a path leads to. -/
def askContent (s : Survey) (path : Path) : IO Survey := do
  if path = [] ∨ 0 ∈ path then return s
  let place := (← IO.currentDir) / String.ofList path.display
  try return s.addContent path (.ok (← IO.FS.readBinFile place).toList)
  catch e => return s.addContent path (.error (faultOf e))

/-- Asks all that a run with these options asks. -/
def askFor (kind : Kind) (o : CommandLine.Options) : IO Survey := do
  let config := o.config.getD Settings.defaultPath
  let mut s ← askContent (← askKind {} config) config
  match Settings.load s.fileSystem o.config with
  | .error _ => return s
  | .ok settings =>
    let root := o.root.getD (settings.rootFor kind)
    s ← askKind s root
    for child in Lint.children s.fileSystem root do
      s ← askKind s child
    for target in Lint.discover s.fileSystem settings kind root do
      let document :=
        match kind with
        | .prompt => target
        | .skill => Path.join target settings.skills.documentName
      s ← askContent (← askKind s document) document
    return s

/-- Two digits at least. -/
def twoDigits (n : Int) : String := if n < 10 then "0" ++ toString n else toString n

/-- The present moment, to the second. -/
def now : IO Text := do
  let seconds := (← Std.Time.Timestamp.now).toSecondsSinceUnixEpoch.val
  let date := Std.Time.PlainDate.ofEpochDay (.ofInt (seconds / 86400))
  let clock := [seconds % 86400 / 3600, seconds % 3600 / 60, seconds % 60].map twoDigits
  return (toString date.year.toInt ++ "-" ++ twoDigits date.month.val ++ "-" ++
    twoDigits date.day.val ++ "T" ++ ":".intercalate clock ++ "+00:00").toList

/-- The kind whose command the program is called by. -/
def kindInUse : IO Kind := do
  let name := (← IO.appPath).fileName.map String.toList
  return if name = some Kind.skill.commandName then .skill else .prompt

/-- The words of this program for what the libraries complain of. -/
def wording (kind : Kind) : CommandLine.Wording where
  usage _ := CommandLine.unlines ["error: bad command line", "", CommandLine.usage false kind]
  malformed := "TOML parse error"
  panic := CommandLine.unlines ["error: a path in the report is not UTF-8"]

end DocLint

open DocLint in
/-- Runs the command that the program is called by. -/
def main (args : List String) : IO UInt32 := do
  let kind ← kindInUse
  let words := args.map (Utf8.encode ·.toList)
  let survey ←
    match CommandLine.parse words with
    | .ok o => if o.listRules then pure {} else askFor kind o
    | .error _ => pure {}
  let color := (← (← IO.getStdout).isTty) && (← IO.getEnv "NO_COLOR").isNone
  let outcome := CommandLine.run survey.fileSystem kind color (← now) words
  IO.print (String.ofList outcome.stdout)
  IO.eprint (String.ofList ((outcome.stderr.map (·.text (wording kind))).getD []))
  return UInt32.ofNat outcome.exitCode
