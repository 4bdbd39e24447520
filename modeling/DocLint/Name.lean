/-
# Names

`is_valid_name`, SPEC_FULL.md §4.2, §4.3 and §10.3.

Prompts and skills are named alike: 1 to 64 characters, each a lower-case ASCII
letter, a digit or a hyphen.
-/

import DocLint.Text

namespace DocLint

/-- `c` may stand in a name. -/
def isNameChar (c : Char) : Bool := ('a' ≤ c && c ≤ 'z') || ('0' ≤ c && c ≤ '9') || c == '-'

/-- `name` is a valid name, from its first character to its last. -/
def isValidName (name : Text) : Bool :=
  1 ≤ name.length && name.length ≤ 64 && name.all isNameChar

/-- A name is valid by its length and by its characters, which are counted as characters. -/
theorem isValidName_iff {name : Text} :
    isValidName name ↔ 1 ≤ name.length ∧ name.length ≤ 64 ∧ ∀ c ∈ name, isNameChar c := by
  simp [isValidName, and_assoc]

/-- The pattern of names: 1 to 64 characters, each from `a` to `z`, from `0` to `9`
or a hyphen. -/
def NamePattern (name : Text) : Prop :=
  1 ≤ name.length ∧ name.length ≤ 64 ∧
    ∀ c ∈ name, ('a' ≤ c ∧ c ≤ 'z') ∨ ('0' ≤ c ∧ c ≤ '9') ∨ c = '-'

/-- **The check of a name decides the pattern,** `^[a-z0-9-]{1,64}$` with `$` at the very end.
-/
theorem isValidName_iff_namePattern {name : Text} : isValidName name ↔ NamePattern name := by
  rw [isValidName_iff, NamePattern]
  simp only [isNameChar, Bool.or_eq_true, Bool.and_eq_true, decide_eq_true_eq, beq_iff_eq, or_assoc]

theorem NamePattern.ne_nil {name : Text} (h : NamePattern name) : name ≠ [] := by
  rintro rfl
  exact absurd h.1 (by decide)

end DocLint
