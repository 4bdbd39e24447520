/-
# Input variables by segments

The matches of the variable pattern, SPEC_FULL.md §4.2, rule 4.

The closing braces of a text end its segments; what stands behind the last
brace is no segment.  Counting input variables from left to right comes to the
same as counting the segments that bear one, each once:

| segment | bears a variable | why |
| --- | --- | --- |
| `a ${input:x` | yes | the marker and a character behind it |
| `a ${input:` | no | nothing behind the marker |
| `${input:${input:a` | yes, one | the second marker belongs to the first variable |

The induction follows the count.  A variable takes the first segment as a whole
(`exists_of_start_eq_variable`), an unclosed marker leaves no segment, and a
character that starts no variable can be taken from the first segment without
changing what it bears (`countP_segments_cons`).

Where two texts meet, the open end of the first joins the first segment of the second, and
every other segment is one of theirs (`exists_variableCount_append`).
-/

import DocLint.Prompt.Variables
import DocLint.Proofs.Text.Occurrence
import DocLint.Proofs.Text.Pieces

namespace DocLint

namespace Prompt

open Text

/-- The segments of a text, each ended by a closing brace. -/
def segments (t : Text) : List Text := (List.splitOn '}' t).dropLast

/-- `segment` holds the marker of a variable and at least one character behind
it. -/
def BearsVariable (segment : Text) : Prop :=
  ∃ before c after, segment = before ++ variableMarker ++ c :: after

/-- The character behind the marker may be any, so a segment bears a variable where the marker
stands in front of its last character. -/
theorem bearsVariable_iff_isInfix {segment : Text} :
    BearsVariable segment ↔ variableMarker <:+: segment.dropLast :=
  (isInfix_dropLast_iff (List.cons_ne_nil _ _)).symm

instance : DecidablePred BearsVariable := fun segment =>
  decidable_of_iff (contains variableMarker segment.dropLast = true)
    (contains_iff_isInfix.trans bearsVariable_iff_isInfix.symm)

/-- Without a closing brace there is no segment. -/
theorem segments_of_not_mem {t : Text} (h : '}' ∉ t) : segments t = [] := by
  rw [segments, List.splitOn_eq_singleton h]
  rfl

/-- A segment ends at its closing brace, and the next begins behind it. -/
theorem segments_append_brace {a : Text} (h : '}' ∉ a) (b : Text) :
    segments (a ++ '}' :: b) = a :: segments b := by
  rw [segments, List.splitOn_append_cons_self_of_not_mem h,
    List.dropLast_cons_of_ne_nil (List.splitOn_ne_nil _ _)]
  rfl

/-- A variable is the marker, a body that is not empty, and a closing brace; none stands before
that. -/
theorem exists_of_start_eq_variable {t rest : Text} (h : start t = .variable rest) :
    ∃ c body, t = variableMarker ++ c :: body ++ '}' :: rest ∧
      '}' ∉ variableMarker ++ c :: body := by
  unfold start at h
  split at h
  · next hp =>
    obtain ⟨u, rfl⟩ := List.isPrefixOf_iff_prefix.1 hp
    rw [List.drop_left] at h
    dsimp only at h
    split at h
    · exact absurd h (by simp)
    · exact absurd h (by simp)
    · next c body d r htake hdrop =>
      have hu : u = u.takeWhile (· ≠ '}') ++ u.dropWhile (· ≠ '}') :=
        List.takeWhile_append_dropWhile.symm
      have hd : d = '}' := by
        have hhead := List.head?_dropWhile_not (· ≠ '}') u
        rw [hdrop] at hhead
        simpa using hhead
      have hall : u.takeWhile (· ≠ '}') |>.all (· ≠ '}') := List.all_takeWhile
      rw [htake] at hu hall
      rw [hdrop, hd, Start.variable.inj h] at hu
      refine ⟨c, body, by rw [hu]; simp, fun hmem => ?_⟩
      rcases List.mem_append.1 hmem with hmem | hmem
      · exact absurd hmem (by decide)
      · exact absurd (List.all_eq_true.1 hall _ hmem) (by decide)
  · exact absurd h (by simp)

/-- A marker with something behind it, up to a brace, is a variable; scanning goes on behind
that brace. -/
theorem start_eq_variable {c : Char} {body : Text} (h : '}' ∉ c :: body) (rest : Text) :
    start (variableMarker ++ c :: body ++ '}' :: rest) = .variable rest := by
  have hall : ∀ d ∈ c :: body, decide (d ≠ '}') = true := by
    intro d hd
    exact decide_eq_true (fun e => h (e ▸ hd))
  have htake : (c :: body ++ '}' :: rest).takeWhile (· ≠ '}') = c :: body := by
    rw [List.takeWhile_append_of_pos hall]
    simp
  have hdrop : (c :: body ++ '}' :: rest).dropWhile (· ≠ '}') = '}' :: rest := by
    rw [List.dropWhile_append_of_pos hall]
    simp
  have hp : variableMarker.isPrefixOf (variableMarker ++ (c :: body ++ '}' :: rest)) :=
    List.isPrefixOf_iff_prefix.2 (List.prefix_append _ _)
  rw [List.append_assoc, start, if_pos hp, List.drop_left]
  simp only [htake, hdrop]

theorem not_bearsVariable_nil : ¬ BearsVariable [] := by
  rintro ⟨before, c, after, h⟩
  simp at h

/-- Where no variable starts, the first character of a segment is not needed for
what the segment bears. -/
theorem bearsVariable_cons_iff {c : Char} {a b : Text} (ha : '}' ∉ c :: a)
    (h : ∀ rest, start (c :: a ++ '}' :: b) ≠ .variable rest) :
    BearsVariable (c :: a) ↔ BearsVariable a := by
  constructor
  · rintro ⟨before, d, after, heq⟩
    cases before with
    | nil =>
      rw [List.nil_append] at heq
      rw [heq] at h ha
      exact absurd (start_eq_variable (fun e => ha (List.mem_append_right _ e)) b) (h b)
    | cons e before =>
      exact ⟨before, d, after, (List.cons.inj heq).2⟩
  · rintro ⟨before, d, after, rfl⟩
    exact ⟨c :: before, d, after, rfl⟩

/-- A character that starts no variable adds none: the first segment bears one without it where
it did with it. -/
theorem countP_segments_cons {c : Char} {t : Text} (h : ∀ rest, start (c :: t) ≠ .variable rest) :
    (segments (c :: t)).countP (BearsVariable ·) = (segments t).countP (BearsVariable ·) := by
  by_cases hc : c = '}'
  · subst hc
    have hseg : segments ('}' :: t) = [] :: segments t :=
      segments_append_brace (a := []) List.not_mem_nil t
    rw [hseg, List.countP_cons_of_neg (by simp [not_bearsVariable_nil])]
  · cases hs : splitFirst '}' t with
    | none =>
      have ht : '}' ∉ t := splitFirst_eq_none_iff.1 hs
      have hct : '}' ∉ c :: t := fun hm => (List.mem_cons.1 hm).elim (Ne.symm hc) ht
      rw [segments_of_not_mem ht, segments_of_not_mem hct]
    | some ab =>
      obtain ⟨a, b⟩ := ab
      obtain ⟨rfl, ha⟩ := splitFirst_eq_some_iff.1 hs
      have hca : '}' ∉ c :: a := fun hm => (List.mem_cons.1 hm).elim (Ne.symm hc) ha
      have hiff := bearsVariable_cons_iff hca h
      rw [← List.cons_append, segments_append_brace hca, segments_append_brace ha,
        List.countP_cons, List.countP_cons]
      simp only [hiff]

/-- **Variables are counted by segments:** the count from left to right is the
number of segments that bear a variable. -/
theorem variableCount_eq_countP (t : Text) :
    variableCount t = (segments t).countP (BearsVariable ·) := by
  fun_induction variableCount t with
  | case1 => rfl
  | case2 c t rest hs ih =>
    obtain ⟨d, body, heq, hmem⟩ := exists_of_start_eq_variable hs
    have hbears : BearsVariable (variableMarker ++ d :: body) := ⟨[], d, body, rfl⟩
    rw [heq, segments_append_brace hmem, List.countP_cons, ih]
    simp [hbears]
  | case3 c t hs =>
    rw [segments_of_not_mem (brace_not_mem_of_unclosed hs)]
    rfl
  | case4 c t hs ih =>
    rw [ih, countP_segments_cons]
    intro rest hv
    rw [hv] at hs
    cases hs

/-! ### Texts put together -/

/-- What stands in front has segments of its own; its open end, behind its last brace,
joins the first segment of what follows. -/
theorem exists_segments_append (a : Text) :
    ∃ ps p, ps.length = a.count '}' ∧ ∀ b : Text, '}' ∉ b → segments (a ++ b) = ps ∧
      ∀ rest, segments (a ++ b ++ '}' :: rest) = ps ++ (p ++ b) :: segments rest := by
  obtain ⟨ps, p, h⟩ := exists_splitOn_append '}' a
  refine ⟨ps, p, ?_, fun b hb => ⟨?_, fun rest => ?_⟩⟩
  · have hpieces := h [] List.not_mem_nil
    have hlength := length_splitOn '}' a
    rw [List.append_nil] at hpieces
    rw [hpieces, List.length_append] at hlength
    exact Nat.succ.inj hlength
  · rw [segments, h b hb, List.dropLast_concat]
  · rw [segments, List.splitOn_append_cons_self, h b hb,
      List.dropLast_append_of_ne_nil (List.splitOn_ne_nil _ _),
      List.append_assoc]
    rfl

/-- A segment stands in the text, with a brace behind it and one in front for each segment
before it. -/
theorem exists_eq_append_of_getElem?_segments {t segment : Text} {n : Nat}
    (h : (segments t)[n]? = some segment) :
    ∃ a b, t = a ++ segment ++ '}' :: b ∧ '}' ∉ segment ∧ a.count '}' = n := by
  cases hsplit : splitFirst '}' t with
  | none =>
    rw [segments_of_not_mem (splitFirst_eq_none_iff.1 hsplit)] at h
    cases h
  | some parts =>
    obtain ⟨first, rest⟩ := parts
    obtain ⟨rfl, hfirst⟩ := splitFirst_eq_some_iff.1 hsplit
    rw [segments_append_brace hfirst] at h
    cases n with
    | zero =>
      obtain rfl : first = segment := Option.some.inj h
      exact ⟨[], rest, rfl, hfirst, rfl⟩
    | succ n =>
      obtain ⟨a, b, hrest, hsegment, hcount⟩ := exists_eq_append_of_getElem?_segments h
      refine ⟨first ++ '}' :: a, b, by rw [hrest]; simp, hsegment, ?_⟩
      rw [List.count_append, List.count_eq_zero.2 hfirst, List.count_cons_self, hcount,
        Nat.zero_add]

/-- What stands in front is counted by itself; its open end joins the first segment of
what follows. -/
theorem exists_variableCount_append (a : Text) :
    ∃ p : Text, ∀ b : Text, '}' ∉ b → variableCount (a ++ b) = variableCount a ∧
      ∀ rest, variableCount (a ++ b ++ '}' :: rest) =
        variableCount a + (if BearsVariable (p ++ b) then 1 else 0) + variableCount rest := by
  obtain ⟨ps, p, -, h⟩ := exists_segments_append a
  have hcount : variableCount a = ps.countP (BearsVariable ·) := by
    rw [variableCount_eq_countP, ← (h [] List.not_mem_nil).1, List.append_nil]
  refine ⟨p, fun b hb => ⟨?_, fun rest => ?_⟩⟩
  · rw [variableCount_eq_countP, (h b hb).1, hcount]
  · rw [variableCount_eq_countP, (h b hb).2, hcount, variableCount_eq_countP rest,
      List.append_cons, List.countP_append, List.countP_append, List.countP_singleton]
    simp only [decide_eq_true_eq]

/-- A segment that begins a text is counted by itself, and the count goes on behind its brace.
-/
theorem variableCount_append_brace {b : Text} (hb : '}' ∉ b) (rest : Text) :
    variableCount (b ++ '}' :: rest) =
      (if BearsVariable b then 1 else 0) + variableCount rest := by
  rw [variableCount_eq_countP, segments_append_brace hb, List.countP_cons,
    variableCount_eq_countP rest, Nat.add_comm]
  simp only [decide_eq_true_eq]

/-- A character that the marker does not hold parts a segment: a marker in front of
it has the character behind it. -/
theorem bearsVariable_append_cons_iff {c : Char} (hc : c ∉ variableMarker) {a b : Text} :
    BearsVariable (a ++ c :: b) ↔ variableMarker <:+: a ∨ BearsVariable b := by
  rw [bearsVariable_iff_isInfix, List.dropLast_append_of_ne_nil (List.cons_ne_nil c b)]
  cases b with
  | nil => simp [not_bearsVariable_nil]
  | cons d b =>
    rw [List.dropLast_cons_of_ne_nil (List.cons_ne_nil d b), isInfix_append_cons_iff hc,
      bearsVariable_iff_isInfix]

/-- **A line put between two lines** adds no variable and takes none, where it holds
no dollar and no brace. -/
theorem variableCount_insert_line {line : Text} (hdollar : '$' ∉ line) (hbrace : '}' ∉ line)
    (a b : Text) :
    variableCount (a ++ '\n' :: line ++ '\n' :: b) = variableCount (a ++ '\n' :: b) := by
  obtain ⟨p, hp⟩ := exists_variableCount_append a
  have hnewline : '\n' ∉ variableMarker := by decide
  have hmarker : ¬ variableMarker <:+: line := fun h => hdollar (h.subset List.mem_cons_self)
  -- The line stands in front of the first brace of `b`, if there is one.
  have hfree {u : Text} (hu : '}' ∉ u) : '}' ∉ '\n' :: u ∧ '}' ∉ '\n' :: line ++ '\n' :: u := by
    simp [hu, hbrace]
  cases hsplit : splitFirst '}' b with
  | none =>
    obtain ⟨hwithout, hwith⟩ := hfree (splitFirst_eq_none_iff.1 hsplit)
    rw [List.append_assoc, (hp _ hwith).1, (hp _ hwithout).1]
  | some parts =>
    obtain ⟨segment, rest⟩ := parts
    obtain ⟨rfl, hsegment⟩ := splitFirst_eq_some_iff.1 hsplit
    obtain ⟨hwithout, hwith⟩ := hfree hsegment
    have hbears : BearsVariable (p ++ ('\n' :: line ++ '\n' :: segment)) ↔
        BearsVariable (p ++ '\n' :: segment) := by
      rw [List.cons_append, bearsVariable_append_cons_iff hnewline,
        bearsVariable_append_cons_iff hnewline, bearsVariable_append_cons_iff hnewline,
        or_iff_right hmarker]
    have hleft : a ++ '\n' :: line ++ '\n' :: (segment ++ '}' :: rest) =
        a ++ ('\n' :: line ++ '\n' :: segment) ++ '}' :: rest := by simp
    have hright : a ++ '\n' :: (segment ++ '}' :: rest) =
        a ++ '\n' :: segment ++ '}' :: rest := by simp
    rw [hleft, hright, (hp _ hwith).2, (hp _ hwithout).2]
    simp only [hbears]

/-- What a segment bears it bears with more in front, so a segment that grows to the left loses
no variable. -/
theorem BearsVariable.append_left {b : Text} (h : BearsVariable b) (a : Text) :
    BearsVariable (a ++ b) := by
  obtain ⟨before, c, after, rfl⟩ := h
  exact ⟨a ++ before, c, after, by simp⟩

end Prompt

end DocLint
