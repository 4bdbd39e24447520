/-
# Help texts

`--help` and `--version` of the two commands, SPEC_FULL.md §10.6.

What the commands print about themselves.  The short help has one line for each
option, the long one a paragraph.  Headings and the words that are typed as they
stand are styled.
-/

import DocLint.Kind
import DocLint.Render.Color

namespace DocLint

namespace CommandLine

/-- The version of the commands. -/
def version : Text := "0.1.0"

/-- What a command is for. -/
def about : Kind → Text
  | .prompt => "Validate *.prompt.md files in a prompts directory"
  | .skill => "Validate SKILL.md files in a skills directory"

/-- How a command is called. -/
def usage (color : Bool) (kind : Kind) : Text :=
  Style.heading.paint color "Usage:" ++ " " ++ Style.word.paint color kind.commandName ++
    " [OPTIONS] [ROOT]"

/-- An option in a help text: its short form, where it has one, and its long form. -/
def optionWords (color : Bool) (short : Option Char) (long : Text) : Text :=
  let front : Text :=
    match short with
    | some c => Style.word.paint color ['-', c] ++ ", "
    | none => "    "
  "  " ++ front ++ Style.word.paint color ("--" ++ long)

/-- The lines of the short help, below the usage. -/
def shortLines (color : Bool) : List Text :=
  ["",
    Style.heading.paint color "Arguments:",
    "  [ROOT]  Root directory to validate [default: from config, else .github/prompts or .github/skills]",
    "",
    Style.heading.paint color "Options:",
    optionWords color 'f' "format" ++
      " <FORMAT>  Output format [default: text] [possible values: text, json, sarif]",
    optionWords color none "config" ++ " <CONFIG>  Custom config file path",
    optionWords color none "list-rules" ++ "       List the rules this command checks and exit",
    optionWords color 'v' "verbose" ++ "          Enable debug logging on stderr",
    optionWords color 'h' "help" ++ "             Print help (see more with '--help')",
    optionWords color 'V' "version" ++ "          Print version"]

/-- A format in the long help, with what is said of it. -/
def formatLine (color : Bool) (name blanks about : Text) : Text :=
  "          - " ++ Style.word.paint color name ++ ":" ++ blanks ++ about

/-- The lines of the long help, below the usage. -/
def longLines (color : Bool) : List Text :=
  ["",
    Style.heading.paint color "Arguments:",
    "  [ROOT]",
    "          Root directory to validate [default: from config, else .github/prompts or .github/skills]",
    "",
    Style.heading.paint color "Options:",
    optionWords color 'f' "format" ++ " <FORMAT>",
    "          Output format",
    "",
    "          Possible values:",
    formatLine color "text" "  " "One `<P0|P1|P2> <message>: <path>` line per diagnostic",
    formatLine color "json" "  " "Pretty-printed JSON document, see [`json::format`]",
    formatLine color "sarif" " " "SARIF 2.1.0 log with one run, see [`sarif::format`]",
    "          ",
    "          [default: text]",
    "",
    optionWords color none "config" ++ " <CONFIG>",
    "          Custom config file path",
    "",
    optionWords color none "list-rules",
    "          List the rules this command checks and exit",
    "",
    optionWords color 'v' "verbose",
    "          Enable debug logging on stderr",
    "",
    optionWords color 'h' "help",
    "          Print help (see a summary with '-h')",
    "",
    optionWords color 'V' "version",
    "          Print version"]

/-- Lines, each closed by a newline. -/
def unlines (lines : List Text) : Text := lines.flatMap (· ++ ['\n'])

/-- The help of a command. -/
def help (color : Bool) (kind : Kind) (long : Bool) : Text :=
  unlines
    ([about kind, "", usage color kind] ++ if long then longLines color else shortLines color)

/-- The version line of a command. -/
def versionLine (kind : Kind) : Text := unlines [kind.commandName ++ " " ++ version]

end CommandLine

end DocLint
