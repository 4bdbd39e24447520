/-
# Mappings written line by line

SPEC_FULL.md §3 and §4.1: the mappings that frontmatter can be.

A line in front of the first closing sets its field (`extract_withLineAt`).  So the line
of a field, as `toBlock` writes it, is an update of the mapping (`extract_withFieldLine`),
and from a block without lines every mapping is reached whose fields lines can hold
(`exists_extract_eq_ofList`).  These are all the mappings that texts have
(`exists_extract_eq_iff`):

| mode | keys | values |
| --- | --- | --- |
| `preserve` | trimmed, without colons and newlines | trimmed, without newlines |
| `strip` | trimmed, without colons and newlines | without newlines |

Not every such field can be written the way `toBlock` does.

| in the way | written all the same |
| --- | --- |
| a key that begins with the dashes that close a block | behind a space |
| blanks or quotes around a value | between quotes, which are dropped |
-/

import DocLint.Proofs.Frontmatter.Insertion
import DocLint.Proofs.Frontmatter.RoundTrip
import Mathlib.Data.List.Induction

namespace DocLint

namespace Frontmatter

open Text

variable {mode : QuoteMode} {t : Text} {m : Frontmatter} {key value : Text} {i : Nat}

/-! ### One line -/

/-- Dashes in front of a line are dashes in front of its key, since the colon behind the key is
none. -/
theorem not_opening_prefix_fieldText (h : ¬ opening <+: key) (value : Text) :
    ¬ opening <+: fieldText (key, value) :=
  fun hp => h (prefix_of_prefix_append_cons (by decide) hp)

/-- **The line of a field is an update of the mapping.**  Put in front of the first closing,
of which there is one, it sets its key and leaves every other key alone. -/
theorem extract_withFieldLine (hm : extract mode t = some m) (hcolon : ':' ∉ key)
    (hkey : '\n' ∉ key) (htrim : trim key = key) (hdashes : ¬ opening <+: key)
    (hvalue : '\n' ∉ value) :
    (∃ i, FirstClosing t i) ∧ ∀ i, FirstClosing t i →
      ∃ m', extract mode (withLineAt i (fieldText (key, value)) t) = some m' ∧
        (∃ v, StandsFor mode (trim value) v ∧ m'.get? key = some v) ∧
        ∀ other, other ≠ key → m'.get? other = m.get? other := by
  obtain ⟨-, i, hfirst, -⟩ := reads_of_extract hm
  refine ⟨⟨i, hfirst⟩, fun i hi => ?_⟩
  have hwith := extract_withLineAt hm hi (newline_not_mem_fieldText hkey hvalue)
    (not_opening_prefix_fieldText hdashes value) (field?_fieldText hcolon htrim value)
  refine ⟨_, hwith, ⟨mode.value (trim value), value_eq_iff_standsFor.1 rfl, ?_⟩,
    fun other hother => ?_⟩
  · rw [get?_insert, if_pos rfl]
  · rw [get?_insert, if_neg hother]

/-- A block whose first line is glued to the opening and whose last line is a carriage
return. -/
def gluedBlock : Text := "--- name : old\nb: c\n\n\r\n---\n---\n"

/-- The name is set anew, with blanks and quotes around it, and `b` is kept. -/
theorem extract_withFieldLine_gluedBlock :
    (extract .strip gluedBlock = some (ofList [("name", "old"), ("b", "c")]) ∧
      ':' ∉ ("name" : Text) ∧ '\n' ∉ ("name" : Text) ∧ trim "name" = "name" ∧
      ¬ opening <+: ("name" : Text) ∧ '\n' ∉ (" 'new' \r" : Text)) ∧
    (∃ i, FirstClosing gluedBlock i) ∧ ∀ i, FirstClosing gluedBlock i →
      ∃ m', extract .strip (withLineAt i (fieldText ("name", " 'new' \r")) gluedBlock) = some m' ∧
        (∃ v, StandsFor .strip (trim " 'new' \r") v ∧ m'.get? "name" = some v) ∧
        ∀ other : Text, other ≠ "name" →
          m'.get? other = (ofList [("name", "old"), ("b", "c")]).get? other := by
  have hm : extract .strip gluedBlock = some (ofList [("name", "old"), ("b", "c")]) := by
    decide +kernel
  have hcolon : ':' ∉ ("name" : Text) := by decide +kernel
  have hkey : '\n' ∉ ("name" : Text) := by decide +kernel
  have htrim : trim "name" = "name" := by decide +kernel
  have hdashes : ¬ opening <+: ("name" : Text) := by decide +kernel
  have hvalue : '\n' ∉ (" 'new' \r" : Text) := by decide +kernel
  exact ⟨⟨hm, hcolon, hkey, htrim, hdashes, hvalue⟩,
    extract_withFieldLine hm hcolon hkey htrim hdashes hvalue⟩

/-! ### All lines -/

/-- The field `f` can stand on a line in front of a closing. -/
def HasLine (mode : QuoteMode) (f : Text × Text) : Prop :=
  ∃ line, '\n' ∉ line ∧ ¬ opening <+: line ∧ field? mode line = some f

/-- **Fields that lines can hold are the mapping of some text.**  They are written from the
first to the last, each in front of the closing. -/
theorem exists_extract_eq_ofList {fields : List (Text × Text)}
    (h : ∀ f ∈ fields, HasLine mode f) : ∃ t, extract mode t = some (ofList fields) := by
  induction fields using List.reverseRecOn with
  | nil => exact ⟨opening ++ closing, by cases mode <;> decide +kernel⟩
  | append_singleton fields f ih =>
    obtain ⟨t, ht⟩ := ih fun g hg => h g (List.mem_append_left _ hg)
    obtain ⟨line, hline, hdashes, hfield⟩ := h f (List.mem_append_right _ List.mem_cons_self)
    obtain ⟨-, i, hi, -⟩ := reads_of_extract ht
    refine ⟨withLineAt i line t, ?_⟩
    rw [ofList_concat]
    exact extract_withLineAt ht hi hline hdashes hfield

/-- Behind a space a key may begin with dashes, and the value is read from what stands for
it. -/
theorem hasLine_of_value {raw : Text} (hcolon : ':' ∉ key) (hkey : '\n' ∉ key)
    (htrim : trim key = key) (hraw : '\n' ∉ raw) (hvalue : mode.value (trim raw) = value) :
    HasLine mode (key, value) := by
  refine ⟨' ' :: key ++ ':' :: raw, by simp [hkey, hraw], fun hp => ?_, ?_⟩
  · exact absurd (List.cons_prefix_cons.1 hp).1 (by decide)
  · have hleft : ':' ∉ ' ' :: key := by simp [hcolon]
    rw [field?_append_colon hleft, trim_space_cons, htrim, hvalue]

/-- A text between quotes is its own trim, so any value can be written where quotes are dropped.
-/
theorem trim_quoted (v : Text) : trim ('"' :: v ++ ['"']) = '"' :: v ++ ['"'] := by
  refine strip_eq_self_iff.2 ⟨fun c hc => ?_, fun c hc => ?_⟩
  · obtain rfl : '"' = c := by simpa using hc
    decide
  · rw [List.getLast?_concat] at hc
    obtain rfl : '"' = c := Option.some.inj hc
    decide

/-- **The mappings that texts have.**  As written, the keys and the values of a mapping are
trimmed, no key has a colon and none of them a newline; without quotes the values need not be
trimmed.  Every such mapping is that of some text. -/
theorem exists_extract_eq_iff (m : Frontmatter) :
    ((∃ t, extract .preserve t = some m) ↔
      ∀ f ∈ m.fields, ':' ∉ f.1 ∧ '\n' ∉ f.1 ∧ '\n' ∉ f.2 ∧ trim f.1 = f.1 ∧ trim f.2 = f.2) ∧
    ((∃ t, extract .strip t = some m) ↔
      ∀ f ∈ m.fields, ':' ∉ f.1 ∧ '\n' ∉ f.1 ∧ trim f.1 = f.1 ∧ '\n' ∉ f.2) := by
  refine ⟨⟨?_, fun h => ?_⟩, ⟨?_, fun h => ?_⟩⟩
  · rintro ⟨t, ht⟩ f hf
    obtain ⟨hcolon, hkey, hvalue, htrimKey, htrimValue⟩ := isPlain_of_extract ht f hf
    exact ⟨hcolon, hkey, hvalue, htrimKey, htrimValue⟩
  · rw [← ofList_fields m]
    refine exists_extract_eq_ofList fun f hf => ?_
    obtain ⟨hcolon, hkey, hvalue, htrimKey, htrimValue⟩ := h f hf
    exact hasLine_of_value hcolon hkey htrimKey hvalue htrimValue
  · rintro ⟨t, ht⟩ f hf
    have hget := get?_eq_some_iff.2 hf
    obtain ⟨v, hplain, -⟩ := exists_isPlain_of_extract ht hget
    exact ⟨hplain.colon_not_mem, hplain.newline_not_mem_key, hplain.trim_key,
      newline_not_mem_of_extract ht hget⟩
  · rw [← ofList_fields m]
    refine exists_extract_eq_ofList fun f hf => ?_
    obtain ⟨hcolon, hkey, htrimKey, hvalue⟩ := h f hf
    have hquoted : '\n' ∉ '"' :: f.2 ++ ['"'] := by simp [hvalue]
    refine hasLine_of_value hcolon hkey htrimKey hquoted ?_
    rw [trim_quoted]
    exact stripQuotes_quoted (by decide) f.2

end Frontmatter

end DocLint
