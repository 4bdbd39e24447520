/-
# Stable sorting

Insertion sort, for lists short enough to be read by people: the names of a directory in
`discover`, and the diagnostics of a report in `sort_by_severity`.  Elements that tie keep
the order they had.
-/

namespace DocLint

variable {α : Type}

/-- `l` with `a` before its first element that `a` may stand before. -/
def insertBy (le : α → α → Bool) (a : α) : List α → List α
  | [] => [a]
  | b :: l => if le a b then a :: b :: l else b :: insertBy le a l

/-- The elements of `l` in the order of `le`. -/
def stableSort (le : α → α → Bool) (l : List α) : List α := l.foldr (insertBy le) []

end DocLint
