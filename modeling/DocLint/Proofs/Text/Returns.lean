/-
# Carriage returns in front of newlines

`withReturns t` is `t` with a carriage return put in front of every newline.  Four
kinds of reader look at such a text, and each finds what it found in `t`:

| reader | what it finds |
| --- | --- |
| looks for a pattern without either character | the pattern in the same places (`exists_of_withReturns_eq_append`) |
| cuts at another character | the pieces of `t`, with returns (`splitOn_withReturns`) |
| cuts at newlines | the pieces of `t`, each with one return more, but for the last (`splitOn_newline_withReturns`) |
| counts lines | as many, if `t` had no return in front of a newline (`lineCount_withReturns`) |

No newline of `withReturns t` starts a piece of it or follows a character of `t`:
there is always a return between.  That is why a return that `t` has in front of a
newline counts as a line of its own afterwards, and why the last reader needs `t`
to have none.
-/

import DocLint.Proofs.Text.Pieces

namespace DocLint

namespace Text

/-- `t` with a carriage return in front of every newline. -/
def withReturns (t : Text) : Text := t.flatMap fun c => if c = '\n' then ['\r', '\n'] else [c]

/-- A newline gets a return in front of it, whether or not there was one before. -/
theorem withReturns_newline_cons (t : Text) :
    withReturns ('\n' :: t) = '\r' :: '\n' :: withReturns t := rfl

/-- Every other character stays as it is, a return that stands alone too. -/
theorem withReturns_cons_of_ne {c : Char} (h : c ≠ '\n') (t : Text) :
    withReturns (c :: t) = c :: withReturns t := by
  rw [withReturns, List.flatMap_cons, if_neg h]
  rfl

/-- Returns are put in piece by piece, since each is put in for one newline alone, and none for
a piece that has no newline. -/
theorem withReturns_append (s t : Text) : withReturns (s ++ t) = withReturns s ++ withReturns t :=
  List.flatMap_append

/-- A text without newlines stays as it is, and so do a key, a marker and a value on one line.
-/
theorem withReturns_of_not_mem {t : Text} (h : '\n' ∉ t) : withReturns t = t := by
  induction t with
  | nil => rfl
  | cons c t ih =>
    obtain ⟨hc, ht⟩ := not_or.1 (fun e => h (List.mem_cons.2 e))
    rw [withReturns_cons_of_ne (Ne.symm hc), ih ht]

/-- No text becomes empty, since every character leaves at least itself. -/
theorem withReturns_cons_ne_nil (c : Char) (t : Text) : withReturns (c :: t) ≠ [] := by
  by_cases hc : c = '\n'
  · subst hc
    exact List.cons_ne_nil _ _
  · rw [withReturns_cons_of_ne hc]
    exact List.cons_ne_nil _ _

/-- No text with returns starts with a newline, so a return in front of such a text breaks a
line by itself. -/
theorem head?_withReturns_ne (t : Text) : (withReturns t).head? ≠ some '\n' := by
  cases t with
  | nil => exact (Option.some_ne_none _).symm
  | cons c t =>
    by_cases hc : c = '\n'
    · subst hc
      rw [withReturns_newline_cons, List.head?_cons]
      decide
    · rw [withReturns_cons_of_ne hc, List.head?_cons, Ne, Option.some.injEq]
      exact hc

/-! ### Patterns -/

section Pattern

variable {p : Text} (hreturn : '\r' ∉ p) (hnewline : '\n' ∉ p)

include hreturn hnewline

/-- A pattern at the start was there before, and what follows it now is what followed it, with
returns. -/
theorem exists_of_withReturns_eq_pattern_append {t after : Text} (h : withReturns t = p ++ after) :
    ∃ u, t = p ++ u ∧ withReturns u = after := by
  induction p generalizing t with
  | nil => exact ⟨t, rfl, h⟩
  | cons c p ih =>
    obtain ⟨hcr, hpr⟩ := not_or.1 (fun e => hreturn (List.mem_cons.2 e))
    obtain ⟨hcn, hpn⟩ := not_or.1 (fun e => hnewline (List.mem_cons.2 e))
    cases t with
    | nil => exact absurd h (List.cons_ne_nil _ _).symm
    | cons d t =>
      by_cases hd : d = '\n'
      · subst hd
        rw [withReturns_newline_cons] at h
        exact absurd (List.cons.inj h).1 hcr
      · rw [withReturns_cons_of_ne hd] at h
        obtain ⟨rfl, hrest⟩ := List.cons.inj h
        obtain ⟨u, rfl, hu⟩ := ih hpr hpn hrest
        exact ⟨u, rfl, hu⟩

/-- **A pattern stands where it stood before,** with what follows it changed in the same way. -/
theorem exists_of_withReturns_eq_append (hne : p ≠ []) {t before after : Text}
    (h : withReturns t = before ++ p ++ after) :
    ∃ a b, t = a ++ p ++ b ∧ withReturns b = after := by
  induction t generalizing before with
  | nil =>
    have hp : before ++ p ++ after = [] := h.symm
    rw [List.append_eq_nil_iff, List.append_eq_nil_iff] at hp
    exact absurd hp.1.2 hne
  | cons d t ih =>
    cases before with
    | nil =>
      obtain ⟨u, hu, hafter⟩ := exists_of_withReturns_eq_pattern_append hreturn hnewline h
      exact ⟨[], u, hu, hafter⟩
    | cons e before =>
      by_cases hd : d = '\n'
      · subst hd
        rw [withReturns_newline_cons] at h
        have hrest : '\n' :: withReturns t = before ++ p ++ after := (List.cons.inj h).2
        cases before with
        | nil =>
          -- The pattern would begin with the newline.
          cases p with
          | nil => exact absurd rfl hne
          | cons c p =>
            have hc : '\n' = c := (List.cons.inj hrest).1
            exact absurd (hc ▸ List.mem_cons_self) hnewline
        | cons f before =>
          obtain ⟨a, b, rfl, hb⟩ := ih (List.cons.inj hrest).2
          exact ⟨'\n' :: a, b, rfl, hb⟩
      · rw [withReturns_cons_of_ne hd] at h
        obtain ⟨a, b, rfl, hb⟩ := ih (List.cons.inj h).2
        exact ⟨d :: a, b, rfl, hb⟩

/-- A text that has neither a newline nor a return begins the one where it begins the other. -/
theorem prefix_withReturns_iff {t : Text} : p <+: withReturns t ↔ p <+: t := by
  constructor
  · rintro ⟨after, h⟩
    obtain ⟨u, rfl, -⟩ := exists_of_withReturns_eq_pattern_append hreturn hnewline h.symm
    exact List.prefix_append p u
  · rintro ⟨u, rfl⟩
    rw [withReturns_append, withReturns_of_not_mem hnewline]
    exact List.prefix_append p _

/-- **A text without newline and return occurs in the one where it occurs in the other,** so a
marker is found as often with either line ending. -/
theorem isInfix_withReturns_iff (hne : p ≠ []) {t : Text} : p <:+: withReturns t ↔ p <:+: t := by
  constructor
  · rintro ⟨before, after, h⟩
    obtain ⟨a, b, rfl, -⟩ := exists_of_withReturns_eq_append hreturn hnewline hne h.symm
    exact ⟨a, b, rfl⟩
  · rintro ⟨a, b, rfl⟩
    refine ⟨withReturns a, withReturns b, ?_⟩
    rw [withReturns_append, withReturns_append, withReturns_of_not_mem hnewline]

end Pattern

/-! ### Pieces -/

/-- **Pieces cut elsewhere** are the pieces of `t` with their returns, since no return is a
separator. -/
theorem splitOn_withReturns {sep : Char} (hreturn : '\r' ≠ sep) (hnewline : '\n' ≠ sep) (t : Text) :
    List.splitOn sep (withReturns t) = (List.splitOn sep t).map withReturns := by
  induction t with
  | nil => rfl
  | cons c t ih =>
    obtain ⟨p, ps, hp⟩ := exists_splitOn_eq_cons sep t
    have ht : List.splitOn sep (withReturns t) = withReturns p :: ps.map withReturns := by
      rw [ih, hp, List.map_cons]
    by_cases hc : c = '\n'
    · subst hc
      have hnl : List.splitOn sep ('\n' :: withReturns t) =
          ('\n' :: withReturns p) :: ps.map withReturns :=
        splitOn_cons_of_ne hnewline ht
      rw [withReturns_newline_cons, splitOn_cons_of_ne hreturn hnl, splitOn_cons_of_ne hnewline hp]
      rfl
    · rw [withReturns_cons_of_ne hc]
      by_cases hsep : c = sep
      · subst hsep
        rw [splitOn_self_cons, splitOn_self_cons, ih]
        rfl
      · rw [splitOn_cons_of_ne hsep ht, splitOn_cons_of_ne hsep hp, List.map_cons,
          withReturns_cons_of_ne hc]

/-- **Pieces cut at newlines** have one return more; with one behind the text, the
last piece has it as well. -/
theorem splitOn_newline_withReturns (t : Text) :
    List.splitOn '\n' (withReturns t ++ ['\r']) = (List.splitOn '\n' t).map (· ++ ['\r']) := by
  induction t with
  | nil => decide
  | cons c t ih =>
    by_cases hc : c = '\n'
    · subst hc
      have hreturn : List.splitOn '\n' ('\r' :: '\n' :: (withReturns t ++ ['\r'])) =
          ['\r'] :: List.splitOn '\n' (withReturns t ++ ['\r']) :=
        splitOn_cons_of_ne (by decide) (splitOn_self_cons _ _)
      rw [withReturns_newline_cons, splitOn_self_cons, List.map_cons, ← ih]
      exact hreturn
    · obtain ⟨p, ps, hp⟩ := exists_splitOn_eq_cons '\n' t
      rw [hp, List.map_cons] at ih
      rw [withReturns_cons_of_ne hc, List.cons_append, splitOn_cons_of_ne hc ih,
        splitOn_cons_of_ne hc hp]
      rfl

/-! ### Lines -/

/-- A character breaks a line by itself unless a newline follows a return.  This is the one case
of the count that looks at two characters. -/
theorem lineCountFrom_cons {opened : Bool} {c : Char} {t : Text}
    (h : ¬ (c = '\r' ∧ t.head? = some '\n')) :
    lineCountFrom opened (c :: t) =
      if isLineBreak c then lineCountFrom false t + 1 else lineCountFrom true t := by
  rw [lineCountFrom]
  rintro u rfl rfl
  exact h ⟨rfl, rfl⟩

/-- No line is counted twice: a return and the newline behind it break once, as the newline did.
-/
theorem lineCountFrom_withReturns {t : Text} (h : ¬ ['\r', '\n'] <:+: t) (opened : Bool) :
    lineCountFrom opened (withReturns t) = lineCountFrom opened t := by
  induction t generalizing opened with
  | nil => rfl
  | cons c t ih =>
    have ht : ¬ ['\r', '\n'] <:+: t := fun hinfix => h (List.infix_cons hinfix)
    by_cases hc : c = '\n'
    · subst hc
      have hsingle : lineCountFrom opened ('\n' :: t) = lineCountFrom false t + 1 := by
        rw [lineCountFrom_cons fun hpair => absurd hpair.1 (by decide)]
        exact if_pos (by decide)
      rw [withReturns_newline_cons, hsingle, ← ih ht]
      rfl
    · have hbefore : ¬ (c = '\r' ∧ t.head? = some '\n') := by
        rintro ⟨rfl, hhead⟩
        obtain ⟨u, rfl⟩ := List.head?_eq_some_iff.1 hhead
        exact h (List.prefix_append ['\r', '\n'] u).isInfix
      have hafter : ¬ (c = '\r' ∧ (withReturns t).head? = some '\n') :=
        fun hpair => head?_withReturns_ne t hpair.2
      rw [withReturns_cons_of_ne hc, lineCountFrom_cons hbefore, lineCountFrom_cons hafter, ih ht,
        ih ht]

/-- **The number of lines stays,** as long as no newline had a return in front: a second return
would be a break of its own. -/
theorem lineCount_withReturns {t : Text} (h : ¬ ['\r', '\n'] <:+: t) :
    lineCount (withReturns t) = lineCount t :=
  lineCountFrom_withReturns h false

end Text

end DocLint
