/-
# Input variables

The pattern that `check_input_variables` counts, SPEC_FULL.md §4.2, rule 4.

A variable is `$`, `{`, `input:`, one or more characters other than `}`, and
`}`.  Variables are counted from left to right and share no character: the
count goes on behind the closing brace of the last one.

| the text begins with | `start` | the count goes on |
| --- | --- | --- |
| a variable | `variable` | behind it |
| a marker without a brace behind it | `unclosed` | nowhere |
| anything else | `other` | behind the first character |

An unclosed marker has no brace behind it (`brace_not_mem_of_unclosed`), and
without a brace there is no variable (`variableCount_of_not_mem`): the count
reads a text once, however many markers it holds.
-/

import DocLint.Text

namespace DocLint

namespace Prompt

/-- What opens an input variable. -/
def variableMarker : Text := ['$', '{', 'i', 'n', 'p', 'u', 't', ':']

/-- What a text begins with. -/
inductive Start
  | variable (rest : Text)
  | unclosed
  | other

/-- Reads the start of a text. -/
def start (t : Text) : Start :=
  if variableMarker.isPrefixOf t then
    let body := t.drop variableMarker.length
    match body.takeWhile (· ≠ '}'), body.dropWhile (· ≠ '}') with
    | _, [] => .unclosed
    | [], _ :: _ => .other
    | _ :: _, _ :: rest => .variable rest
  else .other

/-- What follows a variable is shorter than what began with it, so the count comes to an end. -/
theorem length_of_variable {t rest : Text} (h : start t = .variable rest) :
    rest.length < t.length := by
  unfold start at h
  split at h
  · next hp =>
    obtain ⟨body, rfl⟩ := List.isPrefixOf_iff_prefix.1 hp
    simp only [List.drop_left] at h
    split at h
    · simp at h
    · simp at h
    · next hd =>
      have hl := congrArg List.length (List.takeWhile_append_dropWhile (p := (· ≠ '}')) (l := body))
      rw [hd] at hl
      simp only [List.length_append, List.length_cons] at hl
      simp only [Start.variable.injEq] at h
      simp only [← h, List.length_append]
      omega
  · simp at h

/-- The number of input variables in a text. -/
def variableCount : Text → Nat
  | [] => 0
  | c :: t =>
    match h : start (c :: t) with
    | .variable rest => variableCount rest + 1
    | .unclosed => 0
    | .other => variableCount t
termination_by t => t.length
decreasing_by
  · exact length_of_variable h
  · simp

/-- A variable closes with a brace, so the text that begins with one holds a brace. -/
theorem brace_mem_of_variable {t rest : Text} (h : start t = .variable rest) : '}' ∈ t := by
  unfold start at h
  split at h
  · dsimp only at h
    split at h
    · simp at h
    · simp at h
    · next hd =>
      have hb := List.head?_dropWhile_not (· ≠ '}') (t.drop variableMarker.length)
      simp only [hd, List.head?_cons, ne_eq, decide_eq_false_iff_not, Decidable.not_not] at hb
      have hm := (List.dropWhile_suffix (· ≠ '}')).subset (hd ▸ List.mem_cons_self)
      exact List.mem_of_mem_drop (hb ▸ hm)
  · simp at h

/-- An unclosed marker has no brace behind it, nor one in it. -/
theorem brace_not_mem_of_unclosed {t : Text} (h : start t = .unclosed) : '}' ∉ t := by
  unfold start at h
  split at h
  · next hp =>
    obtain ⟨body, rfl⟩ := List.isPrefixOf_iff_prefix.1 hp
    dsimp only at h
    split at h
    · next hd =>
      have ht := List.takeWhile_append_dropWhile (p := (· ≠ '}')) (l := body)
      rw [List.drop_left] at hd
      rw [hd, List.append_nil] at ht
      have hb : body.all (· ≠ '}') := ht ▸ List.all_takeWhile
      intro hm
      rcases List.mem_append.1 hm with hm | hm
      · revert hm; decide
      · simpa using List.all_eq_true.1 hb _ hm
    · simp at h
    · simp at h
  · simp at h

/-- **Without a brace there is no variable,** so none follows an unclosed marker, and the count
may stop there. -/
theorem variableCount_of_not_mem {t : Text} (h : '}' ∉ t) : variableCount t = 0 := by
  fun_induction variableCount t with
  | case1 => rfl
  | case2 c t rest hs => exact absurd (brace_mem_of_variable hs) h
  | case3 => rfl
  | case4 c t hs ih => exact ih fun hm => h (List.mem_cons_of_mem _ hm)

end Prompt

end DocLint
