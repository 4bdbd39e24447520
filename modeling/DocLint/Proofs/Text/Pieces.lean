/-
# Lists cut at a separator

How `List.splitOn` cuts a list that is made of parts, and why it does not matter
to a reader of lines in which of three ways the lines were cut.  Texts are cut
into lines and paths into components, so the facts are stated of any list.

| change to the list | change to its pieces |
| --- | --- |
| `a`, a separator, `b` | those of `a`, then those of `b` (`List.splitOn_append_cons_self`) |
| one element in front | an empty piece more, or a longer first piece |
| separators stripped from the ends | some empty pieces less |
| `lines` in place of `List.splitOn` | carriage returns dropped, an empty piece less |

So a reader that skips the empty piece and takes no notice of a carriage return
at the end sees the same pieces each time (`filterMap_splitOn_strip`,
`filterMap_lines`).
-/

import DocLint.Proofs.Text.Trim
import DocLint.Text.Line

namespace DocLint

namespace Text

section Cut

variable {α : Type} [BEq α] {sep : α}

/-- Every list has a first piece, if only the empty one, so what is written in front has a piece
to join. -/
theorem exists_splitOn_eq_cons (sep : α) (l : List α) : ∃ p ps, l.splitOn sep = p :: ps :=
  List.exists_cons_of_ne_nil (List.splitOn_ne_nil sep l)

/-- **There is one piece more than there are separators,** so a text with no newline is one
piece and not none. -/
theorem length_splitOn (sep : α) (l : List α) : (l.splitOn sep).length = l.count sep + 1 := by
  induction l with
  | nil => rfl
  | cons x l ih =>
    rw [List.splitOn_cons_eq_if_modifyHead, List.count_cons]
    split
    · rw [List.length_cons, ih]
    · rw [List.length_modifyHead, ih, Nat.add_zero]

variable [LawfulBEq α]

/-- A separator in front makes an empty first piece, and the pieces behind it are those of the
rest. -/
@[simp]
theorem splitOn_self_cons (sep : α) (l : List α) : (sep :: l).splitOn sep = [] :: l.splitOn sep := by
  rw [List.splitOn_cons_eq_if_modifyHead, if_pos (beq_self_eq_true sep)]

/-- An element that does not separate joins the first piece, and the others stay as they are. -/
theorem splitOn_cons_of_ne {x : α} (h : x ≠ sep) {l p : List α} {ps : List (List α)}
    (hp : l.splitOn sep = p :: ps) : (x :: l).splitOn sep = (x :: p) :: ps := by
  rw [List.splitOn_cons_eq_if_modifyHead, if_neg (by simpa using h), hp, List.modifyHead_cons]

/-- What is written behind a list without separating belongs to its last piece, whichever pieces
are in front of that. -/
theorem exists_splitOn_append (sep : α) (a : List α) :
    ∃ ps p, ∀ b : List α, sep ∉ b → (a ++ b).splitOn sep = ps ++ [p ++ b] := by
  induction a with
  | nil => exact ⟨[], [], fun b hb => List.splitOn_eq_singleton hb⟩
  | cons x a ih =>
    obtain ⟨ps, p, h⟩ := ih
    by_cases hx : x = sep
    · subst hx
      refine ⟨[] :: ps, p, fun b hb => ?_⟩
      rw [List.cons_append, splitOn_self_cons, h b hb, List.cons_append]
    · cases ps with
      | nil => exact ⟨[], x :: p, fun b hb => splitOn_cons_of_ne hx (h b hb)⟩
      | cons q ps => exact ⟨(x :: q) :: ps, p, fun b hb => splitOn_cons_of_ne hx (h b hb)⟩

/-- **A piece is made of elements of the list, none of which separates.**  By induction on the
list: the first element either ends an empty piece or joins the first one. -/
theorem mem_and_ne_of_mem_splitOn {l p : List α} (hp : p ∈ l.splitOn sep) {x : α} (hx : x ∈ p) :
    x ∈ l ∧ x ≠ sep := by
  induction l generalizing p with
  | nil =>
    rw [List.splitOn_nil, List.mem_singleton] at hp
    exact absurd (hp ▸ hx) List.not_mem_nil
  | cons y l ih =>
    by_cases hy : y = sep
    · subst hy
      rw [splitOn_self_cons] at hp
      rcases List.mem_cons.1 hp with rfl | hp
      · exact absurd hx List.not_mem_nil
      · exact (ih hp hx).imp_left (List.mem_cons_of_mem _)
    · obtain ⟨q, qs, hq⟩ := exists_splitOn_eq_cons sep l
      rw [splitOn_cons_of_ne hy hq] at hp
      rw [hq] at ih
      rcases List.mem_cons.1 hp with rfl | hp
      · rcases List.mem_cons.1 hx with rfl | hx
        · exact ⟨List.mem_cons_self, hy⟩
        · exact (ih List.mem_cons_self hx).imp_left (List.mem_cons_of_mem _)
      · exact (ih (List.mem_cons_of_mem _ hp) hx).imp_left (List.mem_cons_of_mem _)

/-- A piece is made of elements of the list, so what is true of every element is true of those
of a piece. -/
theorem mem_of_mem_splitOn {l p : List α} (hp : p ∈ l.splitOn sep) {x : α} (hx : x ∈ p) : x ∈ l :=
  (mem_and_ne_of_mem_splitOn hp hx).1

/-- No piece holds the separator, so no line holds a newline and no component of a path a slash.
-/
theorem not_mem_of_mem_splitOn {l p : List α} (hp : p ∈ l.splitOn sep) : sep ∉ p :=
  fun hx => (mem_and_ne_of_mem_splitOn hp hx).2 rfl

end Cut

variable {sep : Char}

section Reader

variable {α : Type} {f : Text → Option α}

/-- Separators in front of a text make empty pieces only, and a reader that passes over these
does not see them. -/
theorem filterMap_splitOn_append_left (hnil : f [] = none) {l : Text} (hl : ∀ c ∈ l, c = sep)
    (t : Text) : (List.splitOn sep (l ++ t)).filterMap f = (List.splitOn sep t).filterMap f := by
  induction l with
  | nil => rfl
  | cons c l ih =>
    obtain ⟨rfl, hl'⟩ := List.forall_mem_cons.1 hl
    rw [List.cons_append, splitOn_self_cons, List.filterMap_cons_none hnil, ih hl']

/-- Separators behind a text make empty pieces only, and a reader that passes over these does
not see them. -/
theorem filterMap_splitOn_append_right (hnil : f [] = none) {r : Text} (hr : ∀ c ∈ r, c = sep)
    (t : Text) : (List.splitOn sep (t ++ r)).filterMap f = (List.splitOn sep t).filterMap f := by
  cases r with
  | nil => rw [List.append_nil]
  | cons c r =>
    obtain ⟨rfl, hr'⟩ := List.forall_mem_cons.1 hr
    have hrest : (List.splitOn c r).filterMap f = [] := by
      have h := filterMap_splitOn_append_left hnil hr' []
      rwa [List.append_nil, List.splitOn_nil, List.filterMap_cons_none hnil] at h
    rw [List.splitOn_append_cons_self, List.filterMap_append, hrest, List.append_nil]

/-- **Separators stripped from the ends are not missed** by a reader that passes over empty
pieces, so a body may be cut into lines before or after it is stripped. -/
theorem filterMap_splitOn_strip (hnil : f [] = none) (t : Text) :
    (List.splitOn sep (strip (· == sep) t)).filterMap f = (List.splitOn sep t).filterMap f := by
  obtain ⟨l, r, ht, hl, hr⟩ := exists_eq_append_strip (· == sep) t
  have hl' : ∀ c ∈ l, c = sep := fun c hc => eq_of_beq (hl c hc)
  have hr' : ∀ c ∈ r, c = sep := fun c hc => eq_of_beq (hr c hc)
  conv => rhs; rw [ht]
  rw [filterMap_splitOn_append_right hnil hr', filterMap_splitOn_append_left hnil hl']

/-- Whatever makes nothing of an empty line and does not look at returns may read pieces for
lines: they differ by returns at the ends and by one empty piece at the last newline. -/
theorem filterMap_linesOfPieces (hnil : f [] = none) (hret : ∀ p, f (dropReturn p) = f p)
    (ps : List Text) : (linesOfPieces ps).filterMap f = ps.filterMap f := by
  fun_induction linesOfPieces ps with
  | case1 => rfl
  | case2 => rw [List.filterMap_cons_none hnil]
  | case3 => rfl
  | case4 p ps _ ih => rw [List.filterMap_cons, List.filterMap_cons, hret, ih]

/-- **Lines are pieces** to a reader that makes nothing of an empty line and takes no notice of
a carriage return at the end. -/
theorem filterMap_lines (hnil : f [] = none) (hret : ∀ p, f (dropReturn p) = f p) (t : Text) :
    (lines t).filterMap f = (List.splitOn '\n' t).filterMap f :=
  filterMap_linesOfPieces hnil hret _

end Reader

end Text

end DocLint
