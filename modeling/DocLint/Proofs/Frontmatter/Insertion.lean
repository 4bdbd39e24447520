/-
# A line put in front of the closing

The first closing of a text is where a field can be added by hand: a line put directly
in front of it belongs to the block and is its last.  So the mapping has the field of
the line, whatever an earlier line said under the same key, and is otherwise what it was
(`extract_withLineAt`).

| put in | what becomes of the closing |
| --- | --- |
| a line | it is still the first, behind the line |
| a line that begins with `---` | the line closes the block instead |
| a text with a newline | either may happen |

The line starts with the newline that the closing starts with as well.  A closing holds
no second newline, so none can begin in the block and end in the line
(`closing_prefix_cons_append_iff`).
-/

import DocLint.Proofs.Frontmatter.Extraction

namespace DocLint

namespace Frontmatter

open Text

/-- `t` with `line`, a newline in front of it, before the character `i`. -/
def withLineAt (i : Nat) (line t : Text) : Text := t.take i ++ '\n' :: line ++ t.drop i

/-- The parts of a text with a first closing: the opening, the block, the closing, and what
stands behind it. -/
theorem FirstClosing.exists_parts {t : Text} {i : Nat} (h : FirstClosing t i)
    (hopens : opening <+: t) :
    ∃ block rest, t.take i = opening ++ block ∧ t.drop i = closing ++ rest ∧ Framed t block := by
  obtain ⟨hthree, rest, hrest⟩ := (closesAt_iff hopens).1 h.1
  obtain ⟨block, hblock⟩ : opening <+: t.take i := List.prefix_take_iff.2 ⟨hopens, hthree⟩
  exact ⟨block, rest, hblock.symm, hrest.symm, framed_iff.2 ⟨hopens, i, h, by rw [← hblock]; rfl⟩⟩

/-- A closing ends before the next newline, so what stands behind a line has no part in whether
it closes. -/
theorem closing_prefix_cons_append_iff {c : Char} {a b : Text} :
    closing <+: c :: (a ++ '\n' :: b) ↔ closing <+: c :: a := by
  constructor
  · intro h
    obtain ⟨rfl, hdashes⟩ := List.cons_prefix_cons.1 h
    have ha : opening <+: a := prefix_of_prefix_append_cons (by decide) hdashes
    exact List.cons_prefix_cons.2 ⟨rfl, ha⟩
  · intro h
    exact h.trans (by rw [← List.cons_append]; exact List.prefix_append _ _)

/-- A line behind a block without closings makes none, unless it begins with dashes: a closing
in the longer text would begin at the newline in front of the line. -/
theorem not_occursAt_append_line {block line : Text}
    (h : ∀ i < block.length, ¬ OccursAt closing (block ++ closing) i) (hline : '\n' ∉ line)
    (hdashes : ¬ opening <+: line) :
    ∀ i < (block ++ '\n' :: line).length,
      ¬ OccursAt closing (block ++ '\n' :: line ++ closing) i := by
  intro i hi hoccurs
  rw [OccursAt, List.append_assoc, List.cons_append] at hoccurs
  rcases Nat.lt_or_ge i block.length with hlt | hge
  · -- A closing that begins in the block ends in it.
    have hdrop := List.drop_eq_getElem_cons hlt
    rw [List.drop_append_of_le_length (Nat.le_of_lt hlt), hdrop, List.cons_append,
      closing_prefix_cons_append_iff, ← hdrop] at hoccurs
    refine h i hlt ?_
    rw [OccursAt, List.drop_append_of_le_length (Nat.le_of_lt hlt)]
    exact hoccurs.trans (List.prefix_append _ _)
  · obtain ⟨k, rfl⟩ := Nat.exists_eq_add_of_le hge
    rw [← List.drop_drop, List.drop_left] at hoccurs
    cases k with
    | zero =>
      have hprefix : opening <+: line ++ closing := (List.cons_prefix_cons.1 hoccurs).2
      exact hdashes (prefix_of_prefix_append_cons (by decide) hprefix)
    | succ k =>
      -- A closing that begins in the line begins with a character of it.
      rw [List.length_append, List.length_cons] at hi
      have hk : k < line.length := by omega
      rw [List.drop_succ_cons, List.drop_append_of_le_length (Nat.le_of_lt hk),
        List.drop_eq_getElem_cons hk] at hoccurs
      have hnewline : '\n' = line.get ⟨k, hk⟩ := (List.cons_prefix_cons.1 hoccurs).1
      exact hline (hnewline ▸ List.get_mem line ⟨k, hk⟩)

/-- **The line belongs to the block,** behind all that did before: the closing is still the
first, only further on. -/
theorem framed_withLineAt {t line : Text} {i : Nat} (hopens : opening <+: t)
    (h : FirstClosing t i) (hline : '\n' ∉ line) (hdashes : ¬ opening <+: line) :
    ∃ block, Framed t block ∧ Framed (withLineAt i line t) (block ++ '\n' :: line) := by
  obtain ⟨block, rest, htake, hdrop, hframed⟩ := h.exists_parts hopens
  have hfirst := hframed
  obtain ⟨-, -, hfirst⟩ := hfirst
  refine ⟨block, hframed, rest, ?_, not_occursAt_append_line hfirst hline hdashes⟩
  rw [withLineAt, htake, hdrop]
  simp only [List.append_assoc]

/-- A field behind others is set last, so it overwrites and is not overwritten. -/
theorem ofList_concat (fields : List (Text × Text)) (f : Text × Text) :
    ofList (fields ++ [f]) = (ofList fields).insert f.1 f.2 := by
  rw [ofList, List.foldl_append]
  rfl

/-- The field on the last line of a block is set last, whatever earlier lines say under the same
key. -/
theorem ofBlock_append_line {mode : QuoteMode} {line key value : Text} (hline : '\n' ∉ line)
    (hfield : field? mode line = some (key, value)) (block : Text) :
    ofBlock mode (block ++ '\n' :: line) = (ofBlock mode block).insert key value := by
  rw [ofBlock_eq, ofBlock_eq, List.splitOn_append_cons_self, List.splitOn_eq_singleton hline,
    List.filterMap_append,
    List.filterMap_cons_some hfield, List.filterMap_nil, ofList_concat]

/-- **A line in front of the closing sets its field** and leaves every other alone.  The name
line of a prompt and the line of any field are cases of this. -/
theorem extract_withLineAt {mode : QuoteMode} {t line key value : Text} {m : Frontmatter} {i : Nat}
    (hm : extract mode t = some m) (h : FirstClosing t i) (hline : '\n' ∉ line)
    (hdashes : ¬ opening <+: line) (hfield : field? mode line = some (key, value)) :
    extract mode (withLineAt i line t) = some (m.insert key value) := by
  have hopens : opening <+: t := (reads_of_extract hm).1
  obtain ⟨block, hframed, hwith⟩ := framed_withLineAt hopens h hline hdashes
  have hblock : ofBlock mode block = m :=
    Option.some.inj ((extract_eq_some_iff.2 ⟨block, hframed, rfl⟩).symm.trans hm)
  exact extract_eq_some_iff.2 ⟨_, hwith, by rw [ofBlock_append_line hline hfield, hblock]⟩

end Frontmatter

end DocLint
