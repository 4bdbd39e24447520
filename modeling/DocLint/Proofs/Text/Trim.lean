/-
# What stripping removes

`strip p` takes the longest run of characters meeting `p` from either end.  Its
result is the only middle part of the text that has nothing but such characters
around it and none at its own ends (`strip_eq_iff`); all other facts about
`strip` and `trim` are read off that description.

| text | stripped |
| --- | --- |
| with more such characters in front or behind | the same (`strip_append_left`, `strip_append_right`) |
| with none of them at its ends | the text itself (`strip_eq_self_iff`) |
| stripped before | the text itself (`strip_strip`) |
-/

import DocLint.Text.Blank

namespace DocLint

namespace Text

variable {p : Char → Bool} {s t : Text}

/-- `s` begins and ends with no character that meets `p`. -/
def IsBare (p : Char → Bool) (s : Text) : Prop :=
  (∀ c, s.head? = some c → p c = false) ∧ ∀ c, s.getLast? = some c → p c = false

/-- What is left of a text has nothing more to strip at either end, so a second pass takes
nothing. -/
theorem isBare_strip (p : Char → Bool) (t : Text) : IsBare p (strip p t) :=
  ⟨fun _ => head_strip, fun _ => getLast_strip⟩

/-- What is to be dropped in front is dropped, up to where the rest begins, if that begins with
a character to keep. -/
theorem dropWhile_append_bare {l : Text} (hl : ∀ c ∈ l, p c)
    (hs : ∀ c, s.head? = some c → p c = false) : (l ++ s).dropWhile p = s := by
  rw [List.dropWhile_append_of_pos hl]
  cases s with
  | nil => rfl
  | cons c s => rw [List.dropWhile_cons_of_neg (by simp [hs c rfl])]

/-- Only characters that meet `p` are taken away, and only at the ends; the middle part is left
as it was. -/
theorem exists_eq_append_strip (p : Char → Bool) (t : Text) :
    ∃ l r, t = l ++ strip p t ++ r ∧ (∀ c ∈ l, p c) ∧ ∀ c ∈ r, p c := by
  have hl : t = t.takeWhile p ++ t.dropWhile p := List.takeWhile_append_dropWhile.symm
  have hr := congrArg List.reverse
    (List.takeWhile_append_dropWhile (p := p) (l := (t.dropWhile p).reverse))
  rw [List.reverse_append, List.reverse_reverse] at hr
  refine ⟨t.takeWhile p, ((t.dropWhile p).reverse.takeWhile p).reverse, ?_, ?_, ?_⟩
  · rw [strip, List.append_assoc, hr]
    exact hl
  · exact List.all_eq_true.1 List.all_takeWhile
  · intro c hc
    exact List.all_eq_true.1 List.all_takeWhile c (List.mem_reverse.1 hc)

/-- **Stripping has one possible answer:** the bare part that has only
characters meeting `p` around it. -/
theorem strip_eq_iff :
    strip p t = s ↔ IsBare p s ∧ ∃ l r, t = l ++ s ++ r ∧ (∀ c ∈ l, p c) ∧ ∀ c ∈ r, p c := by
  constructor
  · rintro rfl
    exact ⟨isBare_strip p t, exists_eq_append_strip p t⟩
  · rintro ⟨⟨hhead, hlast⟩, l, r, rfl, hl, hr⟩
    have hrev : ∀ c ∈ r.reverse, p c := fun c hc => hr c (List.mem_reverse.1 hc)
    have hlast' : ∀ c, s.reverse.head? = some c → p c = false := by
      intro c hc
      exact hlast c (by rwa [List.head?_reverse] at hc)
    -- An empty middle part does not stop the first pass, which then takes `r` as well.
    cases s with
    | nil =>
      have hall : ∀ c ∈ l ++ [] ++ r, p c := by
        intro c hc
        rw [List.append_nil] at hc
        exact (List.mem_append.1 hc).elim (hl c) (hr c)
      have hnil : (l ++ [] ++ r).dropWhile p = [] := by
        simpa using dropWhile_append_bare (s := []) hall (by simp)
      rw [strip, hnil]
      rfl
    | cons d s =>
      have hd : ∀ c, (d :: s ++ r).head? = some c → p c = false := fun c hc => hhead c hc
      rw [strip, List.append_assoc, dropWhile_append_bare hl hd, List.reverse_append,
        dropWhile_append_bare hrev hlast', List.reverse_reverse]

/-- A text is its own strip exactly where there is nothing to strip at either end; a value that
is written bare therefore comes back unchanged. -/
theorem strip_eq_self_iff : strip p t = t ↔ IsBare p t := by
  refine ⟨fun h => h ▸ isBare_strip p t, fun h => ?_⟩
  exact strip_eq_iff.2 ⟨h, [], [], by simp, by simp, by simp⟩

/-- **Stripping twice is stripping once,** since what is left has nothing to strip. -/
theorem strip_strip (p : Char → Bool) (t : Text) : strip p (strip p t) = strip p t :=
  strip_eq_self_iff.2 (isBare_strip p t)

/-- What would be stripped anyway may stand in front: it is taken with the rest of its run. -/
theorem strip_append_left {l : Text} (hl : ∀ c ∈ l, p c) (t : Text) :
    strip p (l ++ t) = strip p t := by
  obtain ⟨l', r, ht, hl', hr⟩ := exists_eq_append_strip p t
  refine strip_eq_iff.2 ⟨isBare_strip p t, l ++ l', r, ?_, ?_, hr⟩
  · rw [List.append_assoc l, List.append_assoc l, ← ht]
  · intro c hc
    exact (List.mem_append.1 hc).elim (hl c) (hl' c)

/-- What would be stripped anyway may stand behind: it is taken with the rest of its run. -/
theorem strip_append_right {r : Text} (hr : ∀ c ∈ r, p c) (t : Text) :
    strip p (t ++ r) = strip p t := by
  obtain ⟨l, r', ht, hl, hr'⟩ := exists_eq_append_strip p t
  refine strip_eq_iff.2 ⟨isBare_strip p t, l, r' ++ r, ?_, hl, ?_⟩
  · rw [← List.append_assoc, ← ht]
  · intro c hc
    exact (List.mem_append.1 hc).elim (hr' c) (hr c)

/-- Stripping adds no character, so what a text is free of its strip is free of: no key has a
colon, no value a newline. -/
theorem mem_of_mem_strip {c : Char} (h : c ∈ strip p t) : c ∈ t := by
  obtain ⟨l, r, ht, -, -⟩ := exists_eq_append_strip p t
  rw [ht]
  exact List.mem_append_left r (List.mem_append_right l h)

/-- The space that is written behind a colon does not belong to the value, so a field that is
written comes back. -/
theorem trim_space_cons (t : Text) : trim (' ' :: t) = trim t :=
  strip_append_left (l := [' ']) (by simp [isBlank]) t

/-- Nor does the carriage return in front of a newline, so a value is the same with either line
ending. -/
theorem trim_append_return (t : Text) : trim (t ++ ['\r']) = trim t :=
  strip_append_right (by simp [isBlank]) t

end Text

end DocLint
