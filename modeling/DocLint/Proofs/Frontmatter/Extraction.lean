/-
# What extraction answers

`extract` in both modes, SPEC_FULL.md §4.1 and §10.1.

The frontmatter of a text, read off the text itself: where its block begins and
ends, which line holds for a key, and what its value stands for.  `extract`
answers with that mapping and with no other (`extract_reads`).

| part | read off |
| --- | --- |
| block | from the third byte to the first closing behind it (`FirstClosing`) |
| key | the last line with a colon whose part in front of it trims to the key (`LastField`) |
| value | what follows the colon, trimmed, and in one mode unquoted (`StandsFor`) |

A closing is looked for behind the opening and not in it, so the search starts at
an offset.  The offset is counted in bytes; since the three dashes take one byte
each, bytes and characters agree there (`closesAt_iff`).
-/

import DocLint.Proofs.Frontmatter.Fields
import DocLint.Text.Utf8
import Mathlib.Data.Nat.Find

namespace DocLint

namespace Frontmatter

open Text

/-- A closing stands in `t` at the character `i`, with three bytes or more in
front of it. -/
def ClosesAt (t : Text) (i : Nat) : Prop := 3 ≤ Utf8.byteCount (t.take i) ∧ OccursAt closing t i

/-- The first closing of `t` stands at the character `i`. -/
def FirstClosing (t : Text) (i : Nat) : Prop := ClosesAt t i ∧ ∀ j < i, ¬ ClosesAt t j

/-- What a trimmed value stands for in a mode. -/
inductive StandsFor : QuoteMode → Text → Text → Prop
  /-- Values may be kept as written. -/
  | written (v : Text) : StandsFor .preserve v v
  /-- One pair of equal quotes goes, whatever is between them. -/
  | quoted {q : Char} (hq : q = '"' ∨ q = '\'') (v : Text) : StandsFor .strip (q :: v ++ [q]) v
  /-- A value without such a pair stays. -/
  | bare {v : Text} (h : ∀ q, q = '"' ∨ q = '\'' → ∀ inner, v ≠ q :: inner ++ [q]) :
      StandsFor .strip v v

/-- `m` is the mapping that the frontmatter of `t` holds. -/
structure Reads (mode : QuoteMode) (t : Text) (m : Frontmatter) : Prop where
  opens : opening <+: t
  /-- The block ends at the first closing, and its last line with a key has the
  value. -/
  fields : ∃ i, FirstClosing t i ∧ ∀ key value, m.get? key = some value ↔
    ∃ raw, LastField ((t.take i).drop 3) key raw ∧ StandsFor mode (trim raw) value

/-! ### Values -/

theorem isQuote_iff {c : Char} : isQuote c ↔ c = '"' ∨ c = '\'' := by
  rw [isQuote, Bool.or_eq_true, beq_iff_eq, beq_iff_eq]

/-- Stripping takes one layer of quotes, where a value begins and ends with the same. -/
theorem standsFor_stripQuotes (t : Text) : StandsFor .strip t (stripQuotes t) := by
  fun_cases stripQuotes t with
  | case1 => exact .bare fun q _ inner h => absurd h (List.cons_ne_nil q _).symm
  | case2 q rest h =>
    obtain ⟨hq, hlast⟩ := h
    obtain ⟨inner, rfl⟩ := List.getLast?_eq_some_iff.1 hlast
    rw [List.dropLast_concat]
    exact .quoted (isQuote_iff.1 hq) inner
  | case3 q rest h =>
    refine .bare fun p hp inner heq => h ?_
    obtain ⟨rfl, rfl⟩ := List.cons.inj heq
    exact ⟨isQuote_iff.2 hp, List.getLast?_concat⟩

/-- What a value stands for is settled: the layer is there or it is not. -/
theorem StandsFor.eq_stripQuotes {t v : Text} (h : StandsFor .strip t v) : stripQuotes t = v := by
  cases h with
  | quoted hq v => exact stripQuotes_quoted (isQuote_iff.2 hq) v
  | bare h =>
    have hself := standsFor_stripQuotes t
    generalize stripQuotes t = w at hself
    cases hself with
    | quoted hq w => exact absurd rfl (h _ hq w)
    | bare => rfl

/-- **A value stands for one text,** the one that the mode makes of it: itself where quotes are
kept, and what is between them where one pair encloses it. -/
theorem value_eq_iff_standsFor {mode : QuoteMode} {t v : Text} :
    mode.value t = v ↔ StandsFor mode t v := by
  cases mode with
  | strip =>
    constructor
    · rintro rfl
      exact standsFor_stripQuotes t
    · exact StandsFor.eq_stripQuotes
  | preserve =>
    constructor
    · rintro rfl
      exact .written t
    · intro h
      cases h
      rfl

/-! ### The block -/

/-- Behind the opening three bytes are three characters, so the byte offset of a closing can be
counted in characters there. -/
theorem closesAt_iff {t : Text} (h : opening <+: t) {i : Nat} :
    ClosesAt t i ↔ 3 ≤ i ∧ OccursAt closing t i := by
  obtain ⟨u, rfl⟩ := h
  refine and_congr_left fun _ => ⟨fun hbytes => ?_, fun hi => ?_⟩
  · by_contra hlt
    -- Less than the opening takes less than its bytes.
    have hi : i ≤ opening.length := by
      show i ≤ 3
      omega
    have hrest : (opening.drop i).length ≤ Utf8.byteCount (opening.drop i) :=
      Utf8.length_le_byteCount _
    have hsum : Utf8.byteCount (opening.take i) + Utf8.byteCount (opening.drop i) = 3 := by
      rw [← Utf8.byteCount_append, List.take_append_drop]
      decide
    have hlength : (opening.drop i).length = 3 - i := List.length_drop
    rw [List.take_append_of_le_length hi] at hbytes
    omega
  · have hlength : 3 ≤ ((opening ++ u).take i).length := by
      have hthree : opening.length = 3 := rfl
      rw [List.length_take, List.length_append]
      omega
    exact Nat.le_trans hlength (Utf8.length_le_byteCount _)

/-- Where a closing stands behind the opening, it stands behind as many characters
of what the opening leaves. -/
theorem closesAt_opening_append {u : Text} {k : Nat} :
    ClosesAt (opening ++ u) (3 + k) ↔ OccursAt closing u k := by
  rw [closesAt_iff (List.prefix_append _ _)]
  have hoccurs : OccursAt closing (opening ++ u) (3 + k) ↔ OccursAt closing u k :=
    occursAt_append_length_add (a := opening)
  rw [hoccurs]
  exact and_iff_right (Nat.le_add_right 3 k)

/-- Behind the opening the first closing is looked for from the third character on. -/
theorem firstClosing_opening_append {u : Text} {k : Nat} :
    FirstClosing (opening ++ u) (3 + k) ↔
      OccursAt closing u k ∧ ∀ j < k, ¬ OccursAt closing u j := by
  refine and_congr closesAt_opening_append ⟨fun h j hj hoccurs => ?_, fun h j hj hcloses => ?_⟩
  · exact h (3 + j) (by omega) (closesAt_opening_append.2 hoccurs)
  · obtain ⟨hthree, -⟩ := (closesAt_iff (List.prefix_append _ _)).1 hcloses
    obtain ⟨j, rfl⟩ := Nat.exists_eq_add_of_le hthree
    exact h j (by omega) (closesAt_opening_append.1 hcloses)

/-- A text that closes somewhere has a first closing, since offsets are numbers. -/
theorem exists_firstClosing {t : Text} (h : ∃ i, ClosesAt t i) : ∃ i, FirstClosing t i := by
  classical
  exact ⟨Nat.find h, Nat.find_spec h, fun _ hj => Nat.find_min h hj⟩

/-- **The block is framed by the opening and the first closing,** which is to say
that it is the text between them. -/
theorem framed_iff {t block : Text} :
    Framed t block ↔ opening <+: t ∧ ∃ i, FirstClosing t i ∧ block = (t.take i).drop 3 := by
  constructor
  · rintro ⟨rest, rfl, hfirst⟩
    have ht : opening ++ block ++ closing ++ rest = opening ++ (block ++ closing ++ rest) := by
      simp only [List.append_assoc]
    rw [ht]
    refine ⟨List.prefix_append _ _, 3 + block.length, ?_, ?_⟩
    · refine firstClosing_opening_append.2 ⟨?_, fun j hj hoccurs => hfirst j hj ?_⟩
      · rw [OccursAt, List.append_assoc, List.drop_left]
        exact List.prefix_append _ _
      · exact (occursAt_append_iff rest (Nat.le_of_lt hj)).1 hoccurs
    · have htake : (opening ++ (block ++ closing ++ rest)).take (3 + block.length) =
          opening ++ block := by
        rw [← List.append_assoc, ← List.append_assoc, List.append_assoc _ closing rest]
        exact List.take_left' (by rw [List.length_append]; rfl)
      rw [htake]
      rfl
  · rintro ⟨⟨u, rfl⟩, i, hfirst, rfl⟩
    obtain ⟨hthree, -⟩ := (closesAt_iff (List.prefix_append _ _)).1 hfirst.1
    obtain ⟨k, rfl⟩ := Nat.exists_eq_add_of_le hthree
    obtain ⟨⟨rest, hrest⟩, hbefore⟩ := firstClosing_opening_append.1 hfirst
    have hu : u = u.take k ++ closing ++ rest := by
      rw [List.append_assoc, hrest, List.take_append_drop]
    have hk : (u.take k).length ≤ k := List.length_take_le k u
    have hblock : ((opening ++ u).take (3 + k)).drop 3 = u.take k := by
      rw [List.drop_take, Nat.add_sub_cancel_left]
      rfl
    rw [hblock]
    refine ⟨rest, ?_, fun j hj hoccurs => hbefore j (by omega) ?_⟩
    · conv => lhs; rw [hu]
      simp only [List.append_assoc]
    · rw [hu]
      exact (occursAt_append_iff rest (Nat.le_of_lt hj)).2 hoccurs

/-! ### The mapping -/

/-- **What is extracted is what the text reads as,** key by key: the block is framed by the
first closing, and a look-up answers with the last line. -/
theorem reads_of_extract {mode : QuoteMode} {t : Text} {m : Frontmatter}
    (h : extract mode t = some m) : Reads mode t m := by
  obtain ⟨block, hframed, rfl⟩ := extract_eq_some_iff.1 h
  obtain ⟨hopens, i, hfirst, rfl⟩ := framed_iff.1 hframed
  refine ⟨hopens, i, hfirst, fun key value => ?_⟩
  rw [get?_ofBlock_eq_some_iff]
  exact exists_congr fun raw => and_congr_right fun _ => value_eq_iff_standsFor

/-- A mapping is known by its look-ups, so a text holds one mapping and `extract` answers with
it. -/
theorem Reads.extract_eq {mode : QuoteMode} {t : Text} {m : Frontmatter} (h : Reads mode t m) :
    extract mode t = some m := by
  obtain ⟨hopens, i, hfirst, hfields⟩ := h
  refine extract_eq_some_iff.2 ⟨_, framed_iff.2 ⟨hopens, i, hfirst, rfl⟩, ?_⟩
  refine ext_get? fun key => Option.ext fun value => ?_
  rw [hfields, get?_ofBlock_eq_some_iff]
  exact exists_congr fun raw => and_congr_right fun _ => value_eq_iff_standsFor

/-- There is an answer exactly where the text opens and closes, whatever its lines are. -/
theorem isSome_extract_iff {mode : QuoteMode} {t : Text} :
    (extract mode t).isSome ↔ opening <+: t ∧ ∃ i, ClosesAt t i := by
  rw [Option.isSome_iff_exists]
  constructor
  · rintro ⟨m, h⟩
    obtain ⟨hopens, i, hfirst, -⟩ := reads_of_extract h
    exact ⟨hopens, i, hfirst.1⟩
  · rintro ⟨hopens, hcloses⟩
    obtain ⟨i, hfirst⟩ := exists_firstClosing hcloses
    exact ⟨_, extract_eq_some_iff.2 ⟨_, framed_iff.2 ⟨hopens, i, hfirst, rfl⟩, rfl⟩⟩

/-- **Extraction is what the text says.**  There is a mapping exactly where the text opens with
dashes and closes behind them, and it is the one that the text holds: for each key the value on
its last line, unquoted or as it stands. -/
theorem extract_reads (mode : QuoteMode) (t : Text) :
    ((extract mode t).isSome ↔ opening <+: t ∧ ∃ i, ClosesAt t i) ∧
      ∀ m, extract mode t = some m ↔ Reads mode t m :=
  ⟨isSome_extract_iff, fun _ => ⟨reads_of_extract, Reads.extract_eq⟩⟩

end Frontmatter

end DocLint
