/-
# Linting a root

`run_lint` with `discover` and `validate` of each kind, SPEC_FULL.md §4.4 and §10.4.

A run looks through one root for documents of one kind and checks each.

| kind | document | looked for |
| --- | --- | --- |
| prompt | a file whose name ends with the suffix | directly under the root |
| skill | a directory | directly under the root |

Documents come in the order of their names, byte by byte, whatever the order in
which the file system lists them.  Only a root that is not there, or a root of
skills that is no directory, keeps a run from starting; what is wrong with a
document becomes a diagnostic.
-/

import DocLint.Prompt.Check
import DocLint.Report
import DocLint.Skill.Check

namespace DocLint

/-- Why a run cannot start at its root. -/
inductive RootError
  | notFound (kind : Kind) (path : Path)
  | notDirectory (kind : Kind) (path : Path)
deriving Repr, DecidableEq

/-- The text of a root error. -/
def RootError.message : RootError → Text
  | .notFound kind path => kind.label ++ " root not found: " ++ path.display
  | .notDirectory kind path => kind.label ++ " root is not a directory: " ++ path.display

namespace Lint

/-- The paths directly under `root`, in the order of their names. -/
def children (fs : FileSystem) (root : Path) : List Path :=
  (stableSort (fun a b => !(b < a)) (fs.names root)).map (Path.join root)

/-- `path` is called like a prompt file.  The name is compared as it is printed. -/
def hasSuffix (suffix : Text) (path : Path) : Bool :=
  match Path.lastName? path with
  | some name => suffix.isSuffixOf (Path.display name)
  | none => false

/-- The documents of a kind under `root`. -/
def discover (fs : FileSystem) (settings : Settings) (kind : Kind) (root : Path) : List Path :=
  match kind with
  | .prompt =>
    (children fs root).filter fun p => fs.isFile p && hasSuffix settings.prompts.suffix p
  | .skill => (children fs root).filter fs.isDirectory

/-- The broken rules of one document. -/
def validate (fs : FileSystem) (settings : Settings) (kind : Kind) (target : Path) :
    List Diagnostic :=
  match kind with
  | .prompt =>
    match fs.readText target with
    | .ok text => Prompt.check target text
    | .error e => [.unreadable "prompt/unreadable" target e]
  | .skill => Skill.check fs target settings.skills

/-- The report on the documents of a kind under `root`. -/
def run (fs : FileSystem) (settings : Settings) (kind : Kind) (root : Path) (timestamp : Text) :
    Except RootError Report :=
  if !fs.leadsSomewhere root then .error (.notFound kind root)
  else if kind = .skill ∧ !fs.isDirectory root then .error (.notDirectory kind root)
  else
    let targets := discover fs settings kind root
    .ok (.new kind root timestamp targets.length
      (targets.flatMap (validate fs settings kind)))

end Lint

end DocLint
