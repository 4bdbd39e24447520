/-
# Input variables as matches of a pattern

The matches of the variable pattern, SPEC_FULL.md §4.2, rule 4.

An input variable is what the pattern `\$\{input:[^}]+\}` describes (`IsVariable`).  The
variables of a text are its leftmost matches without overlap: the first, then the first
behind it, and so on (`Scan`).  There is one such list for each text, its length is the
count, and it has one match for each segment that bears a variable (`exists_oneForEach`).

| at a brace | counted |
| --- | --- |
| `${input:a}` | yes |
| `${input:${input:a}` | once, from the first marker |
| `${input:} b}` | no, at neither brace |
| `${input:a`, and no brace behind | no |

A match holds one brace, at its end.  So it lies within one segment and ends it, and two
matches in one segment have the same end (`MatchesAt.end_unique`).  That is why a search
that goes on behind a match passes over no segment but the one that it has counted.
-/

import DocLint.Proofs.Prompt.Findings
import DocLint.Proofs.Prompt.Segments

namespace DocLint

namespace Prompt

open Text

/-- What the pattern of a variable describes: the marker, one or more characters other
than the closing brace, and the closing brace. -/
def IsVariable (s : Text) : Prop :=
  ∃ c body, s = variableMarker ++ c :: body ++ ['}'] ∧ '}' ∉ c :: body

/-- A variable stands in `t` from the character `i` up to the character `j`. -/
def MatchesAt (t : Text) (i j : Nat) : Prop :=
  ∃ before s after, t = before ++ s ++ after ∧ IsVariable s ∧ before.length = i ∧
    (before ++ s).length = j

/-- `ms` are the leftmost matches in `t` from the character `k` on, without overlap. -/
inductive Scan (t : Text) : Nat → List (Nat × Nat) → Prop
  /-- Nothing matches any more. -/
  | done {k : Nat} (h : ∀ i j, k ≤ i → ¬ MatchesAt t i j) : Scan t k []
  /-- The first match is taken, and the search goes on behind it. -/
  | next {k i j : Nat} {ms : List (Nat × Nat)} (hk : k ≤ i) (hmatch : MatchesAt t i j)
      (hfirst : ∀ i' j', k ≤ i' → i' < i → ¬ MatchesAt t i' j') (hrest : Scan t j ms) :
      Scan t k ((i, j) :: ms)

/-- The number of the segment in which the character `i` of `t` stands: so many braces are
in front of it. -/
def segmentAt (t : Text) (i : Nat) : Nat := (t.take i).count '}'

/-- `ms` are the variables of `t`, one for each segment that bears one. -/
structure OneForEach (t : Text) (ms : List (Nat × Nat)) : Prop where
  /-- They are the leftmost matches, and no other list is. -/
  scan : Scan t 0 ms
  scan_unique : ∀ ms', Scan t 0 ms' → ms' = ms
  /-- They are counted in the text and among the segments. -/
  variableCount_eq : variableCount t = ms.length
  countP_segments_eq : (segments t).countP (BearsVariable ·) = ms.length
  /-- No segment has two of them, and the segments that have one are those that bear
  one. -/
  ascending : ms.Pairwise fun a b => segmentAt t a.1 < segmentAt t b.1
  mem_segments_iff : ∀ n, (∃ m ∈ ms, segmentAt t m.1 = n) ↔
    ∃ segment, (segments t)[n]? = some segment ∧ BearsVariable segment
  /-- The check asks for their number and for nothing else. -/
  reported : ∀ path fields, (checkInputVariables ⟨path, t, fields⟩).map (·.ruleId) =
    if ms.length = 0 then some noInputVariables.id
    else if ms.length = 1 then some singleInputVariable.id else none

variable {s t : Text} {i j k : Nat} {ms : List (Nat × Nat)}

/-! ### One match -/

/-- A variable is a segment that bears one, with the brace that ends it; so matches can be told
by segments. -/
theorem IsVariable.exists_eq_concat (h : IsVariable s) :
    ∃ segment, s = segment ++ ['}'] ∧ '}' ∉ segment ∧ BearsVariable segment := by
  obtain ⟨c, body, rfl, hbody⟩ := h
  refine ⟨variableMarker ++ c :: body, rfl, fun hmem => ?_, [], c, body, rfl⟩
  rcases List.mem_append.1 hmem with hmem | hmem
  · exact absurd hmem (by decide)
  · exact hbody hmem

/-- Where the pattern matches, a variable starts, and the text goes on behind the match, as the
count does. -/
theorem MatchesAt.start_eq (h : MatchesAt t i j) : start (t.drop i) = .variable (t.drop j) := by
  obtain ⟨before, s, after, rfl, ⟨c, body, rfl, hbody⟩, rfl, rfl⟩ := h
  rw [List.drop_left, List.append_assoc, List.drop_left, List.append_assoc]
  exact start_eq_variable hbody after

/-- Where a variable starts, the pattern matches, up to where the count goes on. -/
theorem exists_matchesAt_of_start {rest : Text} (h : start (t.drop i) = .variable rest) :
    ∃ j, MatchesAt t i j ∧ t.drop j = rest := by
  obtain ⟨c, body, heq, hmem⟩ := exists_of_start_eq_variable h
  have hbody : '}' ∉ c :: body := fun hc => hmem (List.mem_append_right _ hc)
  have hi : i ≤ t.length := by
    by_contra hlt
    rw [List.drop_eq_nil_of_le (by omega)] at heq
    cases heq
  have ht : t = t.take i ++ (variableMarker ++ c :: body ++ ['}']) ++ rest := by
    rw [List.append_assoc, List.append_assoc _ ['}'], List.singleton_append, ← heq,
      List.take_append_drop]
  have hlength : (t.take i).length = i := List.length_take_of_le hi
  refine ⟨_, ⟨t.take i, _, rest, ht, ⟨c, body, rfl, hbody⟩, hlength, rfl⟩, ?_⟩
  generalize t.take i ++ (variableMarker ++ c :: body ++ ['}']) = matched at ht ⊢
  rw [ht, List.drop_left]

/-- A match ends in the text, behind a closing brace; so there is none where no brace is left.
-/
theorem MatchesAt.brace_mem (h : MatchesAt t i j) (hk : k ≤ i) : '}' ∈ t.drop k := by
  have hmem : '}' ∈ t.drop i := brace_mem_of_variable h.start_eq
  obtain ⟨d, rfl⟩ := Nat.exists_eq_add_of_le hk
  rw [← List.drop_drop] at hmem
  exact List.mem_of_mem_drop hmem

/-! ### The segment of a match -/

/-- Further on in a text the segment is the same or a later one. -/
theorem segmentAt_mono (t : Text) (h : i ≤ j) : segmentAt t i ≤ segmentAt t j :=
  (List.take_sublist_take_left h).count_le _

/-- **A match lies within one segment,** up to its last character, since only that is a brace.
-/
theorem MatchesAt.segmentAt_eq (h : MatchesAt t i j) {x : Nat} (hi : i ≤ x) (hx : x < j) :
    segmentAt t x = segmentAt t i := by
  obtain ⟨before, s, after, rfl, hs, rfl, rfl⟩ := h
  obtain ⟨segment, rfl, hsegment, -⟩ := hs.exists_eq_concat
  obtain ⟨y, rfl⟩ := Nat.exists_eq_add_of_le hi
  have hy : y ≤ segment.length := by
    rw [List.length_append, List.length_append, List.length_singleton] at hx
    omega
  have hnone : (segment.take y).count '}' = 0 :=
    List.count_eq_zero.2 fun hmem => hsegment (List.mem_of_mem_take hmem)
  rw [segmentAt, segmentAt, List.append_assoc, List.take_length_add_append, List.take_left,
    List.append_assoc, List.take_append_of_le_length hy, List.count_append, hnone, Nat.add_zero]

/-- **A match ends its segment,** so the next match stands in a later one. -/
theorem MatchesAt.segmentAt_end (h : MatchesAt t i j) : segmentAt t j = segmentAt t i + 1 := by
  obtain ⟨before, s, after, rfl, hs, rfl, rfl⟩ := h
  obtain ⟨segment, rfl, hsegment, -⟩ := hs.exists_eq_concat
  rw [segmentAt, segmentAt, List.take_left, List.append_assoc, List.take_left, List.count_append,
    List.count_append, List.count_eq_zero.2 hsegment, Nat.zero_add]
  rfl

theorem MatchesAt.lt (h : MatchesAt t i j) : i < j := by
  by_contra hle
  have hmono := segmentAt_mono t (Nat.not_lt.1 hle)
  rw [h.segmentAt_end] at hmono
  omega

/-- Two matches in one segment end at the brace that closes it. -/
theorem MatchesAt.end_le (h : MatchesAt t i j) {i' j' : Nat} (h' : MatchesAt t i' j')
    (hsegment : segmentAt t i = segmentAt t i') : j' ≤ j := by
  have hend := h.segmentAt_end
  by_contra hlt
  -- The brace that ends the first match would be one of the segment before its end.
  rcases Nat.le_total i' j with hle | hle
  · have heq := h'.segmentAt_eq hle (Nat.not_le.1 hlt)
    omega
  · have hmono := segmentAt_mono t hle
    omega

/-- **Matches that start in one segment end with it,** wherever they start.  So of several the
leftmost is found and covers the others. -/
theorem MatchesAt.end_unique (h : MatchesAt t i j) {i' j' : Nat} (h' : MatchesAt t i' j')
    (hsegment : segmentAt t i = segmentAt t i') : j = j' :=
  Nat.le_antisymm (h'.end_le h hsegment.symm) (h.end_le h' hsegment)

/-! ### The leftmost matches -/

/-- A search that finds nothing at its first character goes on at the next, and finds what a
search from there finds. -/
theorem Scan.of_succ (h : Scan t (k + 1) ms) (hnone : ∀ j, ¬ MatchesAt t k j) : Scan t k ms := by
  have hskip {i j : Nat} (hi : k ≤ i) (hmatch : MatchesAt t i j) : k + 1 ≤ i := by
    refine Nat.lt_of_le_of_ne hi ?_
    rintro rfl
    exact hnone j hmatch
  cases h with
  | done h => exact .done fun i j hi hmatch => h i j (hskip hi hmatch) hmatch
  | next hk hmatch hfirst hrest =>
    refine .next (Nat.le_of_succ_le hk) hmatch (fun i' j' hi hlt hmatch' => ?_) hrest
    exact hfirst i' j' (hskip hi hmatch') hlt hmatch'

/-- **A search has one result,** since of two first matches neither can start before the other.
-/
theorem Scan.unique (h : Scan t k ms) {ms' : List (Nat × Nat)} (h' : Scan t k ms') : ms = ms' := by
  induction h generalizing ms' with
  | done h =>
    cases h' with
    | done => rfl
    | next hk hmatch => exact absurd hmatch (h _ _ hk)
  | @next k i j ms hk hmatch hfirst _ ih =>
    cases h' with
    | done h' => exact absurd hmatch (h' i j hk)
    | @next _ i' j' _ hk' hmatch' hfirst' hrest' =>
      obtain rfl : i = i' := by
        rcases Nat.lt_trichotomy i i' with hlt | heq | hlt
        · exact absurd hmatch (hfirst' i j hk hlt)
        · exact heq
        · exact absurd hmatch' (hfirst i' j' hk' hlt)
      obtain rfl : j = j' := hmatch.end_unique hmatch' rfl
      rw [ih hrest']

/-- **The count is the length of the result.**  By induction on what is left of the text, along
the recursion of the count. -/
theorem exists_scan (t : Text) (k : Nat) :
    ∃ ms, Scan t k ms ∧ variableCount (t.drop k) = ms.length := by
  generalize hu : t.drop k = u
  fun_induction variableCount u generalizing k with
  | case1 =>
    refine ⟨[], .done fun i j hi hmatch => ?_, rfl⟩
    exact absurd (hu ▸ hmatch.brace_mem hi) List.not_mem_nil
  | case2 c u rest hs ih =>
    obtain ⟨j, hmatch, hj⟩ := exists_matchesAt_of_start (hu ▸ hs)
    obtain ⟨ms, hms, hcount⟩ := ih j hj
    refine ⟨(k, j) :: ms, .next (Nat.le_refl k) hmatch (fun i' j' hi hlt => ?_) hms, ?_⟩
    · exact absurd hlt (Nat.not_lt.2 hi)
    · rw [hcount, List.length_cons]
  | case3 c u hs =>
    refine ⟨[], .done fun i j hi hmatch => ?_, rfl⟩
    exact brace_not_mem_of_unclosed hs (hu ▸ hmatch.brace_mem hi)
  | case4 c u hs ih =>
    have hnext : t.drop (k + 1) = u := by
      rw [← List.drop_drop, hu]
      rfl
    obtain ⟨ms, hms, hcount⟩ := ih (k + 1) hnext
    refine ⟨ms, hms.of_succ fun j hmatch => ?_, hcount⟩
    have hstart := hmatch.start_eq
    rw [hu, hs] at hstart
    cases hstart

/-- A match of the result is a match, and starts where the search did or further on. -/
theorem Scan.matchesAt_of_mem (h : Scan t k ms) {m : Nat × Nat} (hm : m ∈ ms) :
    k ≤ m.1 ∧ MatchesAt t m.1 m.2 := by
  induction h with
  | done => exact absurd hm List.not_mem_nil
  | next hk hmatch _ _ ih =>
    rcases List.mem_cons.1 hm with rfl | hm
    · exact ⟨hk, hmatch⟩
    · obtain ⟨hj, hmatch'⟩ := ih hm
      exact ⟨Nat.le_trans hk (Nat.le_trans (Nat.le_of_lt hmatch.lt) hj), hmatch'⟩

/-- **No segment counts twice.**  Behind a match the search goes on in a later segment. -/
theorem Scan.ascending (h : Scan t k ms) :
    ms.Pairwise fun a b => segmentAt t a.1 < segmentAt t b.1 := by
  induction h with
  | done => exact .nil
  | @next k i j ms _ hmatch _ hrest ih =>
    refine List.pairwise_cons.2 ⟨fun m hm => ?_, ih⟩
    have hmono := segmentAt_mono t (hrest.matchesAt_of_mem hm).1
    rw [hmatch.segmentAt_end] at hmono
    exact hmono

/-- **No segment is passed over:** where the pattern matches, a match of the result stands
in the same segment. -/
theorem Scan.exists_mem_of_matchesAt (h : Scan t k ms) (hk : k ≤ i) (hmatch : MatchesAt t i j) :
    ∃ m ∈ ms, segmentAt t m.1 = segmentAt t i := by
  induction h with
  | done h => exact absurd hmatch (h i j hk)
  | @next k i' j' ms _ hmatch' hfirst _ ih =>
    by_cases hbefore : i < i'
    · exact absurd hmatch (hfirst i j hk hbefore)
    · by_cases hwithin : i < j'
      · exact ⟨(i', j'), List.mem_cons_self,
          (hmatch'.segmentAt_eq (Nat.not_lt.1 hbefore) hwithin).symm⟩
      · obtain ⟨m, hm, hsegment⟩ := ih (Nat.not_lt.1 hwithin)
        exact ⟨m, List.mem_cons_of_mem _ hm, hsegment⟩

/-! ### Matches and segments -/

/-- A match stands in a segment that bears a variable, and is closed by the brace of the
segment. -/
theorem MatchesAt.exists_segment (h : MatchesAt t i j) :
    ∃ segment, (segments t)[segmentAt t i]? = some segment ∧ BearsVariable segment := by
  obtain ⟨before, s, after, rfl, hs, rfl, -⟩ := h
  obtain ⟨segment, rfl, hsegment, hbears⟩ := hs.exists_eq_concat
  obtain ⟨ps, p, hlength, hsegments⟩ := exists_segments_append before
  refine ⟨p ++ segment, ?_, hbears.append_left p⟩
  have ht : before ++ (segment ++ ['}']) ++ after = before ++ segment ++ '}' :: after := by simp
  rw [segmentAt, ht, (hsegments segment hsegment).2, List.append_assoc, List.take_left, ← hlength,
    List.getElem?_append_right (Nat.le_refl _), Nat.sub_self]
  rfl

/-- In a segment that bears a variable the pattern matches, from its marker on. -/
theorem exists_matchesAt_of_segment {n : Nat} {segment : Text}
    (h : (segments t)[n]? = some segment) (hbears : BearsVariable segment) :
    ∃ i j, MatchesAt t i j ∧ segmentAt t i = n := by
  obtain ⟨a, b, rfl, hsegment, rfl⟩ := exists_eq_append_of_getElem?_segments h
  obtain ⟨before, c, body, rfl⟩ := hbears
  rw [List.append_assoc, List.mem_append, List.mem_append, not_or, not_or] at hsegment
  obtain ⟨hbefore, -, hbody⟩ := hsegment
  refine ⟨_, _, ⟨a ++ before, variableMarker ++ c :: body ++ ['}'], b, by simp,
    ⟨c, body, rfl, hbody⟩, rfl, rfl⟩, ?_⟩
  have ht : a ++ (before ++ variableMarker ++ c :: body) ++ '}' :: b =
      a ++ before ++ (variableMarker ++ c :: body ++ '}' :: b) := by simp
  rw [segmentAt, ht, List.take_left, List.count_append, List.count_eq_zero.2 hbefore, Nat.add_zero]

/-- **The leftmost matches stand in the segments that bear a variable,** one in each: none is
passed over, since a search goes on within a segment until it finds one. -/
theorem Scan.mem_segments_iff (h : Scan t 0 ms) (n : Nat) :
    (∃ m ∈ ms, segmentAt t m.1 = n) ↔
      ∃ segment, (segments t)[n]? = some segment ∧ BearsVariable segment := by
  constructor
  · rintro ⟨m, hm, rfl⟩
    exact (h.matchesAt_of_mem hm).2.exists_segment
  · rintro ⟨segment, hsegment, hbears⟩
    obtain ⟨i, j, hmatch, rfl⟩ := exists_matchesAt_of_segment hsegment hbears
    exact h.exists_mem_of_matchesAt (Nat.zero_le i) hmatch

/-- Which rule about the variables is reported depends on their number alone. -/
theorem map_ruleId_checkInputVariables (d : Document) :
    (checkInputVariables d).map (·.ruleId) =
      if variableCount d.text = 0 then some noInputVariables.id
      else if variableCount d.text = 1 then some singleInputVariable.id else none := by
  unfold checkInputVariables
  split
  · next h => rw [h]; rfl
  · next h => rw [h]; rfl
  · next h₀ h₁ =>
    rw [if_neg h₀, if_neg h₁]
    rfl

/-- **The variables of a text are counted once for each segment that bears one.**  An empty
body is no match, whatever follows it, and what stands behind the last brace adds none. -/
theorem exists_oneForEach (t : Text) :
    (∃ ms, OneForEach t ms) ∧
      (∀ i j, variableMarker ++ ['}'] <+: t.drop i → ¬ MatchesAt t i j) ∧
      ∀ u, '}' ∉ u → variableCount (t ++ u) = variableCount t := by
  refine ⟨?_, fun i j hempty hmatch => ?_, fun u hu => ?_⟩
  · obtain ⟨ms, hscan, hcount⟩ := exists_scan t 0
    rw [List.drop_zero] at hcount
    refine ⟨ms, hscan, fun ms' h => h.unique hscan, hcount, ?_, hscan.ascending,
      hscan.mem_segments_iff, fun path fields => ?_⟩
    · rw [← variableCount_eq_countP, hcount]
    · rw [map_ruleId_checkInputVariables, hcount]
  · obtain ⟨before, s, after, rfl, ⟨c, body, rfl, hbody⟩, rfl, -⟩ := hmatch
    rw [List.append_assoc, List.drop_left, List.append_assoc, List.append_assoc,
      List.prefix_append_right_inj, List.cons_append] at hempty
    exact hbody ((List.cons_prefix_cons.1 hempty).1 ▸ List.mem_cons_self)
  · obtain ⟨p, hp⟩ := exists_variableCount_append t
    exact (hp u hu).1

/-- A marker in a variable does not count, nor does one with nothing behind it. -/
example : variableCount "$\x7binput:$\x7binput:a\x7d $\x7binput:\x7d b\x7d $\x7binput:c" = 1 := by
  cbv

end Prompt

end DocLint
