/-
# Occurrences

Where a pattern stands in a text, and what the search for it finds.

| search | answer |
| --- | --- |
| `before? p t` | the part of `t` before the first place where `p` stands (`before?_eq_some_iff`) |
| `contains p t` | whether `p` stands anywhere in `t` (`contains_iff_isInfix`) |

A pattern is looked for from left to right.  A stretch without the first
character of the pattern is passed over as a whole (`before?_append`), which is
how the search is worked out on a text that is put together from parts.
-/

import DocLint.Text

namespace DocLint

namespace Text

/-- `pattern` stands in `t` at offset `i`. -/
def OccursAt (pattern t : Text) (i : Nat) : Prop := pattern <+: t.drop i

/-- What stands somewhere behind `a` stands in what follows `a`, so occurrences can be looked
for without counting. -/
theorem exists_prefix_drop_iff {α : Type} {p a l : List α} :
    (∃ i, a.length ≤ i ∧ p <+: (a ++ l).drop i) ↔ p <:+: l := by
  constructor
  · rintro ⟨i, hi, hp⟩
    obtain ⟨k, rfl⟩ := Nat.exists_eq_add_of_le hi
    rw [← List.drop_drop, List.drop_left] at hp
    exact hp.isInfix.trans (List.drop_suffix k l).isInfix
  · rintro ⟨before, after, rfl⟩
    refine ⟨a.length + before.length, Nat.le_add_right _ _, ?_⟩
    rw [← List.drop_drop, List.drop_left, List.append_assoc, List.drop_left]
    exact List.prefix_append _ _

/-- A pattern with something behind it stands in front of the last place, and the other way
round. -/
theorem isInfix_dropLast_iff {α : Type} {p l : List α} (hp : p ≠ []) :
    p <:+: l.dropLast ↔ ∃ before c after, l = before ++ p ++ c :: after := by
  constructor
  · rintro ⟨before, after, h⟩
    rcases List.eq_nil_or_concat l with rfl | ⟨init, last, rfl⟩
    · obtain ⟨hp', -⟩ := List.append_eq_nil_iff.1 h
      exact absurd (List.append_eq_nil_iff.1 hp').2 hp
    · rw [List.concat_eq_append, List.dropLast_concat] at h
      rw [List.concat_eq_append]
      cases after with
      | nil => exact ⟨before, last, [], by rw [← h, List.append_nil]⟩
      | cons c after => exact ⟨before, c, after ++ [last], by rw [← h]; simp⟩
  · rintro ⟨before, c, after, rfl⟩
    rw [List.dropLast_append_of_ne_nil (List.cons_ne_nil c after)]
    exact ⟨before, (c :: after).dropLast, rfl⟩

/-- Text in front moves the occurrences behind it, by as many characters as it has. -/
theorem occursAt_append_length_add {pattern a t : Text} {i : Nat} :
    OccursAt pattern (a ++ t) (a.length + i) ↔ OccursAt pattern t i := by
  have hdrop : (a ++ t).drop (a.length + i) = t.drop i := by
    rw [← List.drop_drop, List.drop_left]
  rw [OccursAt, OccursAt, hdrop]

/-- What stands behind `before ++ pattern` has no part in the occurrences that
begin in `before`: they all end within `pattern`. -/
theorem occursAt_append_iff {pattern before : Text} (after : Text) {i : Nat}
    (hi : i ≤ before.length) :
    OccursAt pattern (before ++ pattern ++ after) i ↔ OccursAt pattern (before ++ pattern) i := by
  have hlen : i ≤ (before ++ pattern).length := by rw [List.length_append]; omega
  unfold OccursAt
  rw [List.drop_append_of_le_length hlen]
  constructor
  · intro h
    refine List.prefix_of_prefix_length_le h (List.prefix_append _ _) ?_
    rw [List.length_drop, List.length_append]
    omega
  · intro h
    exact h.trans (List.prefix_append _ _)

/-- A pattern without the character `c` that stands in front of `c` ends there, so it does not
reach over it. -/
theorem prefix_of_prefix_append_cons {pattern a b : Text} {c : Char} (hc : c ∉ pattern)
    (h : pattern <+: a ++ c :: b) : pattern <+: a := by
  have ha : a ++ [c] <+: a ++ c :: b := ⟨b, by simp⟩
  rcases List.prefix_or_prefix_of_prefix h ha with hp | hp
  · rcases List.prefix_concat_iff.1 hp with rfl | hp
    · exact absurd (List.mem_append_right a List.mem_cons_self) hc
    · exact hp
  · exact absurd (hp.subset (List.mem_append_right a List.mem_cons_self)) hc

/-- **A pattern lies on one side** of a character that it does not hold.  So a text can be
searched piece by piece. -/
theorem isInfix_append_cons_iff {pattern a b : Text} {c : Char} (hc : c ∉ pattern) :
    pattern <:+: a ++ c :: b ↔ pattern <:+: a ∨ pattern <:+: b := by
  constructor
  · intro h
    induction a with
    | nil =>
      rcases List.infix_cons_iff.1 h with hp | hp
      · exact .inl (prefix_of_prefix_append_cons (a := []) hc hp).isInfix
      · exact .inr hp
    | cons d a ih =>
      rcases List.infix_cons_iff.1 h with hp | hp
      · exact .inl (prefix_of_prefix_append_cons (a := d :: a) hc hp).isInfix
      · exact (ih hp).imp_left List.infix_cons
  · rintro (⟨x, y, rfl⟩ | ⟨x, y, rfl⟩)
    · exact ⟨x, y ++ c :: b, by simp⟩
    · exact ⟨a ++ c :: x, y, by simp⟩

/-- Nothing stands before a pattern that the text begins with, even where the pattern comes
again later. -/
theorem before?_cons_of_start {pattern t : Text} {c : Char} (h : pattern <+: c :: t) :
    before? pattern (c :: t) = some [] := by
  rw [before?, if_pos (List.isPrefixOf_iff_prefix.2 h)]

/-- Where the text does not begin with the pattern its first character stands before it. -/
theorem before?_cons_of_no_start {pattern t : Text} {c : Char} (h : ¬ pattern <+: c :: t) :
    before? pattern (c :: t) = (before? pattern t).map (c :: ·) := by
  rw [before?, if_neg (fun hp => h (List.isPrefixOf_iff_prefix.1 hp))]

/-- The search stops where the pattern stands for the first time: no part that
it passed over begins with the pattern. -/
theorem not_prefix_drop_of_before? {pattern t before : Text} (h : before? pattern t = some before)
    {i : Nat} (hi : i < before.length) : ¬ pattern <+: t.drop i := by
  induction t generalizing before i with
  | nil =>
    rw [before?] at h
    split at h
    · rw [← Option.some.inj h] at hi
      exact absurd hi (Nat.not_lt_zero i)
    · exact absurd h (Option.some_ne_none before).symm
  | cons c t ih =>
    by_cases hp : pattern <+: c :: t
    · rw [before?_cons_of_start hp] at h
      rw [← Option.some.inj h] at hi
      exact absurd hi (Nat.not_lt_zero i)
    · rw [before?_cons_of_no_start hp] at h
      obtain ⟨b, hb, rfl⟩ := Option.map_eq_some_iff.1 h
      cases i with
      | zero => exact hp
      | succ i => exact ih hb (Nat.lt_of_succ_lt_succ hi)

/-- The search finds a pattern that is there, no later than where it is known to stand, and what
is in front of it. -/
theorem before?_eq_some_of_first {pattern before after : Text}
    (h : ∀ i < before.length, ¬ OccursAt pattern (before ++ pattern ++ after) i) :
    before? pattern (before ++ pattern ++ after) = some before := by
  induction before with
  | nil =>
    show before? pattern (pattern ++ after) = some []
    have hp : pattern <+: pattern ++ after := List.prefix_append _ _
    generalize pattern ++ after = t at hp
    cases t with
    | nil => rw [before?, if_pos (List.prefix_nil.1 hp)]
    | cons c t => exact before?_cons_of_start hp
  | cons c b ih =>
    have hc : ¬ pattern <+: c :: (b ++ pattern ++ after) := h 0 (Nat.succ_pos _)
    have hb : before? pattern (b ++ pattern ++ after) = some b :=
      ih fun i hi => h (i + 1) (Nat.succ_lt_succ hi)
    exact (before?_cons_of_no_start hc).trans (by rw [hb]; rfl)

/-- **What the search returns is the part before the first occurrence,** and
nothing else is. -/
theorem before?_eq_some_iff {pattern t before : Text} :
    before? pattern t = some before ↔
      ∃ after, t = before ++ pattern ++ after ∧
        ∀ i < before.length, ¬ OccursAt pattern (before ++ pattern) i := by
  constructor
  · intro h
    obtain ⟨after, rfl⟩ := eq_append_of_before? h
    refine ⟨after, rfl, fun i hi hp => ?_⟩
    exact not_prefix_drop_of_before? h hi ((occursAt_append_iff after (Nat.le_of_lt hi)).2 hp)
  · rintro ⟨after, rfl, hfirst⟩
    refine before?_eq_some_of_first fun i hi hp => hfirst i hi ?_
    exact (occursAt_append_iff after (Nat.le_of_lt hi)).1 hp

/-- **The search fails exactly where the pattern stands nowhere,** so a missing delimiter is
never a matter of where the search began. -/
theorem before?_eq_none_iff {pattern t : Text} : before? pattern t = none ↔ ¬ pattern <:+: t := by
  induction t with
  | nil => rw [before?]; split <;> simp_all
  | cons c t ih =>
    by_cases hp : pattern <+: c :: t
    · simp [before?_cons_of_start hp, hp.isInfix]
    · rw [before?_cons_of_no_start hp, Option.map_eq_none_iff, ih, List.infix_cons_iff]
      simp [hp]

/-- The search finds a pattern exactly where it occurs, so a marker may stand inside a longer
word. -/
theorem contains_iff_isInfix {pattern t : Text} : contains pattern t ↔ pattern <:+: t := by
  rw [contains, Option.isSome_iff_ne_none, Ne, before?_eq_none_iff, Decidable.not_not]

/-- A stretch without the first character of the pattern is passed over, since no occurrence can
begin in it. -/
theorem before?_append {c : Char} {pattern skipped : Text} (h : c ∉ skipped) (t : Text) :
    before? (c :: pattern) (skipped ++ t) = (before? (c :: pattern) t).map (skipped ++ ·) := by
  induction skipped with
  | nil => simp
  | cons d skipped ih =>
    obtain ⟨hd, hs⟩ := not_or.1 (fun e => h (List.mem_cons.2 e))
    have hp : ¬ c :: pattern <+: d :: (skipped ++ t) := fun hp => hd (List.cons_prefix_cons.1 hp).1
    rw [List.cons_append, before?_cons_of_no_start hp, ih hs, Option.map_map]
    rfl

end Text

end DocLint
