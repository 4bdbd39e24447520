/-
# Colours

A styled piece of output is put between terminal sequences, or left alone where
colours are off.

| style | sequences in front |
| --- | --- |
| blocker | `1;31` |
| warning | `1;33` |
| info | `34` |
| success | `32` |
| title | `1;4` |
| dimmed | `2` |
| heading | `1`, then `4` |
| word | `1` |
-/

import DocLint.Diagnostic

namespace DocLint

/-- What a styled piece of output is for. -/
inductive Style
  | severity (s : Severity)
  | success
  | title
  | dimmed
  /-- A heading of a help text. -/
  | heading
  /-- A word of a help text that is typed as it stands. -/
  | word
deriving Repr, DecidableEq

namespace Style

/-- The parameters of the terminal sequences that switch a style on. -/
def codes : Style → List Text
  | .severity .blocker => ["1;31"]
  | .severity .warning => ["1;33"]
  | .severity .info => ["34"]
  | .success => ["32"]
  | .title => ["1;4"]
  | .dimmed => ["2"]
  | .heading => ["1", "4"]
  | .word => ["1"]

/-- The character that starts a terminal sequence. -/
def escape : Char := Char.ofNat 0x1B

/-- A terminal sequence. -/
def sequence (code : Text) : Text := [escape, '['] ++ code ++ ['m']

/-- `t` in a style, where colours are on. -/
def paint (color : Bool) (style : Style) (t : Text) : Text :=
  if color then style.codes.flatMap sequence ++ t ++ sequence ['0'] else t

/-- **Without colours a style leaves no trace,** so what is said of plain output needs no word
about styles. -/
@[simp]
theorem paint_false (style : Style) (t : Text) : style.paint false t = t := rfl

end Style

end DocLint
