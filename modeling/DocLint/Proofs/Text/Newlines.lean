/-
# Counting lines by newlines

`count_lines`, SPEC_FULL.md §10.3.

The line count walks over ten kinds of breaks, one of them of two characters.  It is the
number of newlines in a text that has no other break (`normalised`), and one more where
that text leaves a line open:

| text | normalised | newlines | open line | lines |
| --- | --- | ---: | --- | ---: |
| empty | empty | 0 | no | 0 |
| `a` CR LF `b` | `a` LF `b` | 1 | yes | 2 |
| CR CR LF | LF LF | 2 | no | 2 |
| LF CR | LF LF | 2 | no | 2 |

The walk keeps two things apart, the lines that have ended and whether one is open, and so
does the normalised text: its newlines and its last character (`lineCountFrom_eq`).  Both
are known of `a ++ b` once they are known of `a` and of `b`, unless the seam splits the one
break of two characters (`normalised_append`).
-/

import DocLint.Proofs.Text.Returns

namespace DocLint

namespace Text

/-- `t` with a newline for every return that a newline follows, and for that newline. -/
def joinReturns : Text → Text
  | [] => []
  | '\r' :: '\n' :: t => '\n' :: joinReturns t
  | c :: t => c :: joinReturns t

/-- The characters that break a line as a newline does: the return, the vertical tab, the
form feed, three separators of records, and three breaks beyond ASCII. -/
def otherBreaks : List Char :=
  ['\r', '\x0b', '\x0c', '\x1c', '\x1d', '\x1e', '\u0085', '\u2028', '\u2029']

/-- `t` with a newline for every break: first for each return and newline together, then for
each break that is left. -/
def normalised (t : Text) : Text :=
  (joinReturns t).map fun c => if c ∈ otherBreaks then '\n' else c

/-- The number of lines of a text that has no breaks but newlines. -/
def plainLineCount (t : Text) : Nat :=
  t.count '\n' + if t ≠ [] ∧ t.getLast? ≠ some '\n' then 1 else 0

/-- A line is open behind `t`, which has no breaks but newlines; `opened` says whether one
is open before it. -/
def isOpenAfter (opened : Bool) (t : Text) : Bool :=
  match t.getLast? with
  | none => opened
  | some c => c ≠ '\n'

/-- `a` ends with a return, and the newline that belongs to it starts `b`. -/
def SplitsBreak (a b : Text) : Prop := a.getLast? = some '\r' ∧ b.head? = some '\n'

/-- `a` ends where a line ends, if it has any character at all. -/
def EndsLine (a : Text) : Prop := a = [] ∨ ∃ c, a.getLast? = some c ∧ (c = '\n' ∨ c ∈ otherBreaks)

/-- **The breaks are the newline and the nine others.**  The return is one of these, by itself
or in front of a newline. -/
theorem isLineBreak_iff {c : Char} : isLineBreak c ↔ c = '\n' ∨ c ∈ otherBreaks := by
  simp only [otherBreaks, List.mem_cons, List.not_mem_nil, or_false, ← Char.toNat_inj]
  simp only [isLineBreak, Bool.or_eq_true, Bool.and_eq_true, decide_eq_true_eq, beq_iff_eq]
  simp only [show '\n'.toNat = 0xA from rfl, show '\r'.toNat = 0xD from rfl,
    show '\x0b'.toNat = 0xB from rfl, show '\x0c'.toNat = 0xC from rfl,
    show '\x1c'.toNat = 0x1C from rfl, show '\x1d'.toNat = 0x1D from rfl,
    show '\x1e'.toNat = 0x1E from rfl, show '\u0085'.toNat = 0x85 from rfl,
    show '\u2028'.toNat = 0x2028 from rfl, show '\u2029'.toNat = 0x2029 from rfl]
  omega

/-! ### Normalised texts -/

/-- A character that the walk takes by itself is not split from what follows: it is no return in
front of a newline. -/
theorem not_splitsBreak_singleton {c : Char} {t : Text}
    (h : ∀ u, c = '\r' → t = '\n' :: u → False) : ¬ SplitsBreak [c] t := by
  rintro ⟨hc, hhead⟩
  obtain ⟨u, hu⟩ := List.head?_eq_some_iff.1 hhead
  exact h u (Option.some.inj hc) hu

/-- A character that does not split a break from its newline is kept as it is, and the rest is
joined as if it stood alone. -/
theorem joinReturns_cons {c : Char} {t : Text} (h : ¬ SplitsBreak [c] t) :
    joinReturns (c :: t) = c :: joinReturns t := by
  rw [joinReturns]
  rintro u rfl rfl
  exact h ⟨rfl, rfl⟩

/-- Joining leaves the last character where it is, since only the first of the two goes, so a
line left open stays open. -/
theorem getLast?_joinReturns (t : Text) : (joinReturns t).getLast? = t.getLast? := by
  fun_induction joinReturns t with
  | case1 => rfl
  | case2 t ih => simp [List.getLast?_cons, ih]
  | case3 c t _ ih => simp [List.getLast?_cons, ih]

/-- A break that is split stays split when the part in front grows: only the two characters at
the seam matter. -/
theorem SplitsBreak.cons {c : Char} {a b : Text} (h : SplitsBreak a b) : SplitsBreak (c :: a) b :=
  ⟨by simp [List.getLast?_cons, h.1], h.2⟩

/-- **Joining goes part by part,** unless a break is split.  By induction on the first part. -/
theorem joinReturns_append {a b : Text} (h : ¬ SplitsBreak a b) :
    joinReturns (a ++ b) = joinReturns a ++ joinReturns b := by
  fun_induction joinReturns a with
  | case1 => rfl
  | case2 t ih => exact congrArg ('\n' :: ·) (ih fun ht => h ht.cons.cons)
  | case3 c t hc ih =>
    have hsingle : ¬ SplitsBreak [c] (t ++ b) := by
      cases t with
      | nil => exact h
      | cons d t => exact fun hd => not_splitsBreak_singleton hc hd
    rw [List.cons_append, joinReturns_cons hsingle, ih fun ht => h ht.cons, List.cons_append]

/-- **A text is normalised part by part,** unless a break is split, since all else is done
character by character. -/
theorem normalised_append {a b : Text} (h : ¬ SplitsBreak a b) :
    normalised (a ++ b) = normalised a ++ normalised b := by
  rw [normalised, joinReturns_append h, List.map_append]
  rfl

/-- A break that is taken by itself becomes a newline, and any other character stays.  This is
the step of the walk. -/
theorem normalised_cons {c : Char} {t : Text} (h : ¬ SplitsBreak [c] t) :
    normalised (c :: t) = (if isLineBreak c then '\n' else c) :: normalised t := by
  rw [normalised, joinReturns_cons h, List.map_cons]
  refine congrArg (· :: normalised t) ?_
  by_cases hnewline : c = '\n'
  · subst hnewline
    decide
  · simp [isLineBreak_iff, hnewline]

/-! ### Open lines -/

/-- Whether a line is open behind a text depends on its last character, so on nothing that came
before another. -/
theorem isOpenAfter_cons (opened : Bool) (c : Char) (t : Text) :
    isOpenAfter opened (c :: t) = isOpenAfter (c ≠ '\n') t := by
  cases hlast : t.getLast? <;> simp [isOpenAfter, List.getLast?_cons, hlast]

theorem isOpenAfter_append (opened : Bool) (a b : Text) :
    isOpenAfter opened (a ++ b) = isOpenAfter (isOpenAfter opened a) b := by
  cases hlast : b.getLast? <;> simp [isOpenAfter, List.getLast?_append, hlast]

/-- No line is open behind a text that ends where a line ends, be it empty or closed by a break.
-/
theorem EndsLine.isOpenAfter_eq_false {a : Text} (h : EndsLine a) :
    isOpenAfter false (normalised a) = false := by
  rcases h with rfl | ⟨c, hlast, hc⟩
  · rfl
  · have hnewline : (normalised a).getLast? = some '\n' := by
      rw [normalised, List.getLast?_map, getLast?_joinReturns, hlast, Option.map_some]
      rcases hc with rfl | hc
      · rfl
      · rw [if_pos hc]
    simp [isOpenAfter, hnewline]

/-- A text has as many lines as newlines, and one more where a line is left open. -/
theorem plainLineCount_eq (t : Text) :
    plainLineCount t = t.count '\n' + (isOpenAfter false t).toNat := by
  cases hlast : t.getLast? with
  | none => simp [plainLineCount, isOpenAfter, List.getLast?_eq_none_iff.1 hlast]
  | some c =>
    have hne : t ≠ [] := by
      rintro rfl
      cases hlast
    by_cases hc : c = '\n' <;> simp [plainLineCount, isOpenAfter, hlast, hne, hc]

/-! ### The count -/

/-- **The walk counts the newlines of the normalised text,** and knows whether a line is
open behind it. -/
theorem lineCountFrom_eq (opened : Bool) (t : Text) :
    lineCountFrom opened t =
      (normalised t).count '\n' + (isOpenAfter opened (normalised t)).toNat := by
  fun_induction lineCountFrom opened t with
  | case1 opened => simp [normalised, joinReturns, isOpenAfter]
  | case2 opened t ih =>
    have hpair : normalised ('\r' :: '\n' :: t) = '\n' :: normalised t := rfl
    have hopen : isOpenAfter opened ('\n' :: normalised t) = isOpenAfter false (normalised t) := by
      rw [isOpenAfter_cons]
      rfl
    rw [ih, hpair, hopen, List.count_cons_self]
    omega
  | case3 opened c t hc hbreak ih =>
    have hsingle : normalised (c :: t) = '\n' :: normalised t := by
      rw [normalised_cons (not_splitsBreak_singleton hc), if_pos hbreak]
    have hopen : isOpenAfter opened ('\n' :: normalised t) = isOpenAfter false (normalised t) := by
      rw [isOpenAfter_cons]
      rfl
    rw [ih, hsingle, hopen, List.count_cons_self]
    omega
  | case4 opened c t hc hbreak ih =>
    have hsingle : normalised (c :: t) = c :: normalised t := by
      rw [normalised_cons (not_splitsBreak_singleton hc), if_neg hbreak]
    have hnewline : c ≠ '\n' := fun e => hbreak (isLineBreak_iff.2 (.inl e))
    rw [ih, hsingle, isOpenAfter_cons, List.count_cons_of_ne hnewline]
    simp [hnewline]

/-- **Lines are counted as newlines** of the normalised text.  So the lines of a text are
those of its parts, if each part but the last ends where a line ends and no break is split. -/
theorem lineCount_eq_plainLineCount :
    (∀ t : Text, lineCount t = plainLineCount (normalised t)) ∧
    ∀ a b : Text, EndsLine a → ¬ SplitsBreak a b →
      lineCount (a ++ b) = lineCount a + lineCount b := by
  refine ⟨fun t => (lineCountFrom_eq false t).trans (plainLineCount_eq _).symm,
    fun a b hends hsplit => ?_⟩
  have hclosed : isOpenAfter false (normalised a) = false := hends.isOpenAfter_eq_false
  simp only [lineCount, lineCountFrom_eq, normalised_append hsplit, isOpenAfter_append, hclosed,
    List.count_append, Bool.toNat_false]
  omega

/-- A return in front of a whole break, then a line that stays open. -/
theorem lineCount_append_returns :
    EndsLine ['\r'] ∧ ¬ SplitsBreak ['\r'] ['\r', '\n', '\u2028', 'a'] ∧
      lineCount (['\r'] ++ ['\r', '\n', '\u2028', 'a']) =
        lineCount ['\r'] + lineCount ['\r', '\n', '\u2028', 'a'] ∧
      lineCount (['\r'] ++ ['\r', '\n', '\u2028', 'a']) = 4 :=
  have hends : EndsLine ['\r'] := .inr ⟨'\r', rfl, .inr (by decide)⟩
  have hsplit : ¬ SplitsBreak ['\r'] ['\r', '\n', '\u2028', 'a'] :=
    fun h => absurd h.2 (by decide)
  ⟨hends, hsplit, lineCount_eq_plainLineCount.2 _ _ hends hsplit, by decide⟩

end Text

end DocLint
