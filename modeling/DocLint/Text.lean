/-
# Texts

A text is the list of its characters.  Every rule of the linter walks a text
from left to right, and a list carries that walk: `List.splitOn` cuts at every
separator, `splitFirst` cuts once, `before?` stops at the first occurrence of a
pattern.

| function | answer on `a:b:c` with `:` | answer on `abc` |
| --- | --- | --- |
| `List.splitOn` | `a`, `b`, `c` | `abc` |
| `splitFirst` | `a` and `b:c` | none |

`splitFirst` and `before?` are told by what they find (`splitFirst_eq_some_iff`,
`eq_append_of_before?`), and the proofs about them use nothing else.
-/

namespace DocLint

/-- A text, character by character. -/
abbrev Text := List Char

/-- A string literal stands for the text of its characters. -/
instance : Coe String Text := ⟨String.toList⟩

namespace Text

/-- The decimal digits of `n`. -/
def ofNat (n : Nat) : Text := Nat.toDigits 10 n

section Cut

variable {α : Type} [DecidableEq α] {sep : α} {l before after : List α}

/-- The parts of a list before and after the first `sep`; none where `sep` does
not occur. -/
def splitFirst (sep : α) : List α → Option (List α × List α)
  | [] => none
  | x :: l =>
    if x = sep then some ([], l)
    else (splitFirst sep l).map fun (before, after) => (x :: before, after)

/-- **`splitFirst` cuts at the first separator and nowhere else:** the parts are
those around a separator that has none in front of it. -/
theorem splitFirst_eq_some_iff :
    splitFirst sep l = some (before, after) ↔ l = before ++ sep :: after ∧ sep ∉ before := by
  induction l generalizing before with
  | nil => simp [splitFirst]
  | cons x l ih =>
    by_cases h : x = sep
    · cases before with
      | nil => simp [splitFirst, h, eq_comm]
      | cons y before => simp [splitFirst, h]; intro hd; simp [← hd]
    · cases before with
      | nil => simp [splitFirst, h]
      | cons y before =>
        simp only [splitFirst, h, if_false, Option.map_eq_some_iff, Prod.exists, Prod.mk.injEq,
          List.cons.injEq, List.cons_append, List.mem_cons, not_or]
        constructor
        · rintro ⟨b, a, hba, ⟨rfl, rfl⟩, rfl⟩
          obtain ⟨rfl, hb⟩ := ih.1 hba
          exact ⟨⟨rfl, rfl⟩, Ne.symm h, hb⟩
        · rintro ⟨⟨rfl, rfl⟩, -, hb⟩
          exact ⟨before, after, ih.2 ⟨rfl, hb⟩, ⟨rfl, rfl⟩, rfl⟩

/-- A list is not cut exactly where it holds no separator, so a line without a colon is no
field. -/
theorem splitFirst_eq_none_iff : splitFirst sep l = none ↔ sep ∉ l := by
  induction l with
  | nil => simp [splitFirst]
  | cons x l ih =>
    by_cases h : x = sep
    · simp [splitFirst, h]
    · simp [splitFirst, h, ih, Ne.symm h]

end Cut

/-- The part of a text before the first occurrence of `pattern`; none where the
pattern does not occur. -/
def before? (pattern : Text) : Text → Option Text
  | [] => if pattern = [] then some [] else none
  | c :: t =>
    if pattern.isPrefixOf (c :: t) then some []
    else (before? pattern t).map (c :: ·)

/-- What `before?` returns is followed by the pattern, and with it is the front of the text. -/
theorem eq_append_of_before? {pattern t before : Text} (h : before? pattern t = some before) :
    ∃ after, t = before ++ pattern ++ after := by
  induction t generalizing before with
  | nil =>
    by_cases hp : pattern = [] <;> simp [before?, hp] at h
    exact ⟨[], by simp [← h, hp]⟩
  | cons c t ih =>
    by_cases hp : pattern.isPrefixOf (c :: t)
    · simp only [before?, hp, if_true, Option.some.injEq] at h
      obtain ⟨after, ha⟩ := List.isPrefixOf_iff_prefix.1 hp
      exact ⟨after, by simp [← h, ha]⟩
    · simp only [before?, hp, Bool.false_eq_true, if_false, Option.map_eq_some_iff] at h
      obtain ⟨b, hb, rfl⟩ := h
      obtain ⟨after, ha⟩ := ih hb
      exact ⟨after, by simp [ha]⟩

/-- `t` holds `pattern` somewhere. -/
def contains (pattern t : Text) : Bool := (before? pattern t).isSome

/-- `t` with `new` in place of every `old`. -/
def replaceChar (old new : Char) (t : Text) : Text := t.map fun c => if c = old then new else c

/-- `t` followed by blanks up to `width` characters. -/
def padRight (width : Nat) (t : Text) : Text := t ++ List.replicate (width - t.length) ' '

end Text

end DocLint
