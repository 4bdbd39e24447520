/-
# What sorting keeps

The sort of the library's theory is `List.insertionSort`, and `stableSort` is that sort
(`stableSort_eq_insertionSort`).  So the result holds the same elements (`perm_stableSort`),
in order (`pairwise_stableSort`).  Elements that tie keep the order they had
(`filter_stableSort`): as a sublist that is in order already they are a sublist of the
result, and no other of their kind is there.
-/

import Mathlib.Data.List.Sort
import DocLint.StableSort

namespace DocLint

variable {α : Type} {le : α → α → Bool}

/-- The step of the sort is the library's: before the first element that may stand behind. -/
theorem insertBy_eq_orderedInsert (a : α) (l : List α) :
    insertBy le a l = l.orderedInsert (fun a b => le a b) a := by
  induction l with
  | nil => rfl
  | cons b l ih => rw [insertBy, List.orderedInsert_cons, ih]

/-- **The sort is insertion sort,** and all that is known of that is known of it. -/
theorem stableSort_eq_insertionSort (l : List α) :
    stableSort le l = l.insertionSort fun a b => le a b := by
  induction l with
  | nil => rfl
  | cons a l ih =>
    rw [List.insertionSort_cons, ← ih, ← insertBy_eq_orderedInsert]
    rfl

/-- **Nothing is lost, added or doubled,** whatever the order is. -/
theorem perm_stableSort (le : α → α → Bool) (l : List α) : (stableSort le l).Perm l := by
  rw [stableSort_eq_insertionSort]
  exact List.perm_insertionSort _ l

/-- **The result is in order,** whenever `le` is total and transitive. -/
theorem pairwise_stableSort (total : ∀ a b, le a b ∨ le b a)
    (trans : ∀ a b c, le a b → le b c → le a c) (l : List α) :
    (stableSort le l).Pairwise fun a b => le a b := by
  have : Std.Total fun a b => le a b = true := ⟨total⟩
  have : IsTrans α fun a b => le a b = true := ⟨trans⟩
  rw [stableSort_eq_insertionSort]
  exact List.pairwise_insertionSort _ l

/-- **Ties keep their order:** elements that may all stand before one another come out as
they went in. -/
theorem filter_stableSort {p : α → Bool} (total : ∀ a b, le a b ∨ le b a)
    (trans : ∀ a b c, le a b → le b c → le a c) (tie : ∀ a b, p a → p b → le a b) (l : List α) :
    (stableSort le l).filter p = l.filter p := by
  have : Std.Total fun a b => le a b = true := ⟨total⟩
  have : IsTrans α fun a b => le a b = true := ⟨trans⟩
  have hinOrder : (l.filter p).Pairwise fun a b => le a b :=
    List.pairwise_of_forall_mem_list fun a ha b hb =>
      tie a b (List.mem_filter.1 ha).2 (List.mem_filter.1 hb).2
  have hkept : (l.filter p).Sublist (stableSort le l) := by
    rw [stableSort_eq_insertionSort]
    exact List.sublist_insertionSort hinOrder List.filter_sublist
  have hpicked : (l.filter p).Sublist ((stableSort le l).filter p) := by
    simpa only [List.filter_filter, Bool.and_self] using hkept.filter p
  exact (hpicked.eq_of_length ((perm_stableSort le l).filter p).length_eq.symm).symm

end DocLint
