/-
# What is written is JSON

A value in either layout is spelled by the grammar (`spells_print`).  With the grammar's own
law, that a document spells one value at most, the layout can be read back and loses nothing:
any reader that keeps to the grammar gets the value that was written (`spells_print_iff`).

| part | what is written of it | what the grammar asks |
| --- | --- | --- |
| character | itself, a letter or one unit behind a backslash | one of its spellings |
| number | its digits | no leading zero |
| item, member | what the layout has in front of it | blanks |

The induction is on the value.  What follows the value is left open, so that an item is
written the same with a comma behind it and with a bracket.
-/

import DocLint.Json.Print
import DocLint.Proofs.Json.Grammar
import Mathlib.Data.List.Basic

namespace DocLint

namespace Json

open Text

/-! ### Characters and numbers -/

/-- A control character is written by its letter, if it has one, and else by two hexadecimal
digits. -/
theorem escapeChar_control : ∀ n < 0x20,
    (∃ p ∈ escapes, escapeChar (Char.ofNat n) = ['\\', p.1] ∧ p.2 = Char.ofNat n) ∨
      escapeChar (Char.ofNat n) =
        ['\\', 'u', '0', '0', Nat.digitChar (n / 16), Nat.digitChar (n % 16)] := by
  decide

/-- The two hexadecimal digits of a control character that has no letter spell it, behind the
two zeros that are always there. -/
theorem unit?_digitChar : ∀ n < 0x20,
    unit? '0' '0' (Nat.digitChar (n / 16)) (Nat.digitChar (n % 16)) = some n := by
  decide

/-- **Every character is written as a spelling of it:** itself, a letter behind a backslash, or
a number of four digits. -/
theorem readsChar_escapeChar (c : Char) (r : Text) : ReadsChar (escapeChar c ++ r) c r := by
  rcases Nat.lt_or_ge c.toNat 0x20 with hcontrol | hcontrol
  · have hwritten := escapeChar_control c.toNat hcontrol
    rw [Char.ofNat_toNat] at hwritten
    rcases hwritten with ⟨⟨e, d⟩, hp, heq, rfl⟩ | heq
    · rw [heq]
      exact .letter hp
    · have hread := ReadsChar.unit (r := r) (unit?_digitChar c.toNat hcontrol) (.inl (by omega))
      rw [Char.ofNat_toNat] at hread
      rw [heq]
      exact hread
  · by_cases hquote : c = '"'
    · subst hquote
      exact .letter (by decide)
    · by_cases hbackslash : c = '\\'
      · subst hbackslash
        exact .letter (by decide)
      · rw [escapeChar, if_neg hquote, if_neg hbackslash, if_pos hcontrol]
        exact .itself hcontrol hquote hbackslash

/-- Escaped text reads back character by character, up to the quote that closes it, since a
quote in the text is escaped. -/
theorem readsText_flatMap_escapeChar (s r : Text) :
    ReadsText (s.flatMap escapeChar ++ '"' :: r) s r := by
  induction s with
  | nil => exact .close
  | cons c s ih =>
    rw [List.flatMap_cons, List.append_assoc]
    exact .char (readsChar_escapeChar c _) ih

/-- Only zero is written with a zero in front, so a number that is written is one of the
grammar. -/
theorem eq_zero_of_head?_ofNat {n : Nat} (h : (ofNat n).head? = some '0') : n = 0 := by
  induction n using Nat.strongRecOn with
  | ind n ih =>
    rcases Nat.lt_or_ge n 10 with hlt | hge
    · rw [ofNat, Nat.toDigits_of_lt_base hlt, List.head?_cons, Option.some.injEq] at h
      have hdigits : ∀ n < 10, Nat.digitChar n = '0' → n = 0 := by decide
      exact hdigits n hlt h
    · -- The first digit is that of the tenth part, and the tenth part is not zero.
      rw [ofNat, Nat.toDigits_of_base_le (by decide) hge,
        List.head?_append_of_ne_nil _ Nat.toDigits_ne_nil] at h
      have hzero : n / 10 = 0 := ih (n / 10) (by omega) h
      omega

/-- A number reads back, whatever stands behind it, since it is read digit by digit. -/
theorem readsNumber_ofNat (n : Nat) (r : Text) : ReadsNumber (ofNat n ++ r) n r := by
  refine ⟨ofNat n, rfl, Nat.toDigits_ne_nil, fun c hc => ?_, fun h => ?_, ?_⟩
  · exact Nat.isDigit_of_mem_toDigits (by decide) (by decide) hc
  · rw [eq_zero_of_head?_ofNat h]
    rfl
  · exact (Nat.ofDigitChars_toDigits (by decide) (by decide)).symm

/-! ### Values -/

theorem spaced_self (t : Text) : Spaced t t := ⟨[], rfl, nofun⟩

/-- A line starts with blanks in the pretty layout, and with nothing at all in the compact one.
-/
theorem spaced_lineStart (layout : Layout) (depth : Nat) (t : Text) :
    Spaced (layout.lineStart depth ++ t) t := by
  refine ⟨layout.lineStart depth, rfl, fun c hc => ?_⟩
  cases layout with
  | compact => exact absurd hc List.not_mem_nil
  | pretty =>
    rcases List.mem_cons.1 hc with rfl | hc
    · rfl
    · rw [List.eq_of_mem_replicate hc]
      rfl

/-- Behind a colon stands one space or none, as the layout has it, and a reader passes over
either. -/
theorem spaced_behindColon (layout : Layout) (t : Text) :
    Spaced (layout.behindColon ++ t) t := by
  refine ⟨layout.behindColon, rfl, fun c hc => ?_⟩
  cases layout with
  | compact => exact absurd hc List.not_mem_nil
  | pretty =>
    rw [List.mem_singleton.1 hc]
    rfl

/-- **A quoted text reads back,** whatever stands behind it.  By induction on its characters,
each of which is escaped or stands for itself. -/
theorem readsText_quote (s r : Text) : ∃ t, quote s ++ r = '"' :: t ∧ ReadsText t s r := by
  refine ⟨s.flatMap escapeChar ++ '"' :: r, ?_, readsText_flatMap_escapeChar s r⟩
  simp [quote]

section Print

variable (layout : Layout)

/-- A member is written with blanks in front of its key and behind its colon, if with any. -/
theorem readsMember_of_reads (depth : Nat) (key : Text) {t r : Text} {v : Json} (h : Reads t v r) :
    ReadsMember (layout.lineStart depth ++ (quote key ++ ':' :: (layout.behindColon ++ t)))
      (key, v) r := by
  obtain ⟨u, heq, hkey⟩ := readsText_quote key (':' :: (layout.behindColon ++ t))
  rw [heq]
  exact .intro (spaced_lineStart layout depth _) hkey (spaced_self _)
    (.intro (spaced_behindColon layout t) h)

mutual

/-- **What is written begins with a spelling of the value,** and that is all of it.  By
recursion on the value, together with its items and its members. -/
theorem reads_printAt (depth : Nat) (v : Json) (r : Text) :
    Reads (printAt layout depth v ++ r) v r := by
  match v with
  | .null => exact .null
  | .bool false => exact .false
  | .bool true => exact .true
  | .number n => exact .number (readsNumber_ofNat n r)
  | .string s =>
    obtain ⟨t, heq, hread⟩ := readsText_quote s r
    rw [printAt, heq]
    exact .string hread
  | .array [] => exact .array (.none (spaced_self _))
  | .array (v :: items) =>
    have hitems := readsItems_printItems (depth + 1) (v :: items) (List.cons_ne_nil _ _)
      (spaced_lineStart layout depth (']' :: r))
    have heq : printAt layout depth (.array (v :: items)) ++ r =
        '[' :: (printItems layout (depth + 1) (v :: items) ++
          (layout.lineStart depth ++ ']' :: r)) := by
      simp [printAt]
    rw [heq]
    exact .array hitems
  | .object [] => exact .object (.none (spaced_self _))
  | .object (m :: members) =>
    have hmembers := readsMembers_printMembers (depth + 1) (m :: members) (List.cons_ne_nil _ _)
      (spaced_lineStart layout depth ('}' :: r))
    have heq : printAt layout depth (.object (m :: members)) ++ r =
        '{' :: (printMembers layout (depth + 1) (m :: members) ++
          (layout.lineStart depth ++ '}' :: r)) := by
      simp [printAt]
    rw [heq]
    exact .object hmembers

/-- An item has a comma or the bracket behind it, and blanks in front of it, if any, so the
items read back whatever the layout. -/
theorem readsItems_printItems (depth : Nat) (items : List Json) (hne : items ≠ [])
    {t r : Text} (hclose : Spaced t (']' :: r)) :
    ReadsItems (printItems layout depth items ++ t) items r := by
  match items with
  | [] => exact absurd rfl hne
  | [v] =>
    rw [printItems, List.append_assoc]
    exact .last (.intro (spaced_lineStart layout depth _) (reads_printAt depth v t)) hclose
  | v :: v' :: items =>
    have hrest := readsItems_printItems depth (v' :: items) (List.cons_ne_nil _ _) hclose
    have heq : printItems layout depth (v :: v' :: items) ++ t =
        layout.lineStart depth ++ (printAt layout depth v ++
          ',' :: (printItems layout depth (v' :: items) ++ t)) := by
      simp [printItems]
    rw [heq]
    exact .more (.intro (spaced_lineStart layout depth _) (reads_printAt depth v _)) (spaced_self _)
      hrest

/-- A member has a comma or the brace behind it, and blanks in front of it, if any, so the
members read back whatever the layout. -/
theorem readsMembers_printMembers (depth : Nat) (members : List (Text × Json))
    (hne : members ≠ []) {t r : Text} (hclose : Spaced t ('}' :: r)) :
    ReadsMembers (printMembers layout depth members ++ t) members r := by
  match members with
  | [] => exact absurd rfl hne
  | [(key, v)] =>
    have hmember := readsMember_of_reads layout depth key (reads_printAt depth v t)
    have heq : printMembers layout depth [(key, v)] ++ t =
        layout.lineStart depth ++
          (quote key ++ ':' :: (layout.behindColon ++ (printAt layout depth v ++ t))) := by
      simp [printMembers]
    rw [heq]
    exact .last hmember hclose
  | (key, v) :: m :: members =>
    have hrest := readsMembers_printMembers depth (m :: members) (List.cons_ne_nil _ _) hclose
    have hmember := readsMember_of_reads layout depth key
      (reads_printAt depth v (',' :: (printMembers layout depth (m :: members) ++ t)))
    have heq : printMembers layout depth ((key, v) :: m :: members) ++ t =
        layout.lineStart depth ++
          (quote key ++ ':' :: (layout.behindColon ++ (printAt layout depth v ++
            ',' :: (printMembers layout depth (m :: members) ++ t)))) := by
      simp [printMembers]
    rw [heq]
    exact .more hmember (spaced_self _) hrest

end

/-- **A value in a layout is a document that spells it.**  Both layouts are covered by one proof,
since they differ in blanks alone. -/
theorem spells_print (v : Json) : Spells (print layout v) v := by
  have h := reads_printAt layout 0 v []
  rw [List.append_nil] at h
  exact ⟨[], .intro (spaced_self _) h, spaced_self _⟩

/-- **What is printed spells one value,** the one that was printed: any reader that keeps to the
grammar gets it back. -/
theorem spells_print_iff {v w : Json} : Spells (print layout v) w ↔ w = v := by
  constructor
  · exact fun h => h.unique (spells_print layout v)
  · rintro rfl
    exact spells_print layout w

/-- What is printed alike is alike, in either layout, so two reports that are written alike hold
the same. -/
theorem print_injective {v w : Json} (h : print layout v = print layout w) : v = w :=
  (spells_print_iff layout).1 (h ▸ spells_print layout v)

end Print

end Json

end DocLint
