/-
# Characters byte by byte

What the reader knows of a character between two of its bytes, and why it reads
the bytes of a character as that character and as nothing else.

A started character leaves open which one it is: the bits read so far are its
upper bits, and after some lead bytes the next six are limited too.  The numbers
that fit are exactly the characters whose bytes begin with what has been read.

| statement | about |
| --- | --- |
| `Begun.Admits` | a number that fits what has been read |
| `Begun.Keeps` | every number that fits is a character that begins with these bytes |
| `start_cases`, `Begun.Keeps.next_cases` | what one byte can do |

The lead byte decides all of this (`lead_cases`); each further byte takes six bits
and leaves the rest as it was.

| characters up to | lead byte from | continuation bytes |
| --- | --- | ---: |
| U+007F | `00` | 0 |
| U+07FF | `C0` | 1 |
| U+FFFF | `E0` | 2 |
| U+10FFFF | `F0` | 3 |
-/

import DocLint.Text.Utf8

namespace DocLint

namespace Utf8

/-- The first byte of the character with number `n`. -/
def leadOf (n : Nat) : Nat :=
  if n < 0x80 then n
  else if n < 0x800 then 0xC0 + n / 64
  else if n < 0x10000 then 0xE0 + n / 4096
  else 0xF0 + n / 262144

/-- The continuation byte with the six bits of `n` above `unit`. -/
def continuation (n unit : Nat) : UInt8 := UInt8.ofNat (0x80 + n / unit % 64)

/-- The bytes behind the first of the character with number `n`. -/
def tailOf (n : Nat) : Bytes :=
  if n < 0x80 then []
  else if n < 0x800 then [continuation n 1]
  else if n < 0x10000 then [continuation n 64, continuation n 1]
  else [continuation n 4096, continuation n 64, continuation n 1]

/-- What one bit in front of `missing` continuation bytes counts. -/
def unitOf : Nat → Nat
  | 0 => 1
  | missing + 1 => unitOf missing * 64

/-- The last `missing` bytes of the character with number `n`. -/
def lastBytes (n : Nat) : Nat → Bytes
  | 0 => []
  | missing + 1 => continuation n (unitOf missing) :: lastBytes n missing

/-- The character with number `n` fits what has been read: its upper bits are those
read, and its next byte may come. -/
structure Begun.Admits (p : Begun) (n : Nat) : Prop where
  bits : n / unitOf p.missing = p.bits
  low_le : p.low.toNat ≤ 0x80 + n / unitOf (p.missing - 1) % 64
  le_high : 0x80 + n / unitOf (p.missing - 1) % 64 ≤ p.high.toNat

/-- `p` is not complete, and only a continuation byte carries it on. -/
structure Begun.Waits (p : Begun) : Prop where
  missing_pos : 0 < p.missing
  low_ge : 0x80 ≤ p.low.toNat
  high_le : p.high.toNat ≤ 0xBF

/-- `p` is what the reader keeps of the bytes `read`. -/
structure Begun.Keeps (p : Begun) (read : Bytes) : Prop extends p.Waits where
  /-- What fits is a character, and it begins with what has been read. -/
  spells : ∀ n, p.Admits n →
    n.isValidChar ∧ encodeChar (Char.ofNat n) = read ++ lastBytes n p.missing

theorem Begun.Waits.exists_missing_eq {p : Begun} (h : p.Waits) : ∃ m, p.missing = m + 1 :=
  Nat.exists_eq_succ_of_ne_zero (Nat.ne_of_gt h.missing_pos)

/-! ### Numbers and bytes -/

/-- A character is a lead byte and its continuation bytes, and both are known from its number.
-/
theorem encodeChar_eq (c : Char) :
    encodeChar c = UInt8.ofNat (leadOf c.toNat) :: tailOf c.toNat := by
  unfold encodeChar leadOf tailOf
  dsimp only
  split
  · rfl
  · split
    · rfl
    · split <;> rfl

theorem leadOf_lt {n : Nat} (h : n < 0x110000) : leadOf n < 256 := by
  unfold leadOf
  split
  · omega
  · split
    · omega
    · split <;> omega

theorem toNat_ofNat {n : Nat} (h : n.isValidChar) : (Char.ofNat n).toNat = n := by
  rw [Char.ofNat, dif_pos h]
  rfl

/-- The bytes of a character are known from its number, for every number that is one of a
character. -/
theorem encodeChar_ofNat {n : Nat} (h : n.isValidChar) :
    encodeChar (Char.ofNat n) = UInt8.ofNat (leadOf n) :: tailOf n := by
  rw [encodeChar_eq, toNat_ofNat h]

/-- A continuation byte counts six bits above `80`, so no continuation byte is a lead byte or
ASCII. -/
theorem toNat_continuation (n unit : Nat) :
    (continuation n unit).toNat = 0x80 + n / unit % 64 := by
  have hbits : n / unit % 64 < 64 := Nat.mod_lt _ (by decide)
  refine UInt8.toNat_ofNat_of_lt' ?_
  show 0x80 + n / unit % 64 < 256
  omega

/-- The lead byte of a character counts what `leadOf` says, without being cut to eight bits. -/
theorem toNat_lead {n : Nat} (h : n.isValidChar) : (UInt8.ofNat (leadOf n)).toNat = leadOf n := by
  refine UInt8.toNat_ofNat_of_lt' (leadOf_lt ?_)
  rcases h with h | h
  · omega
  · exact h.2

/-! ### The lead byte -/

/-- The size of a character and its lead byte.  This opens the definition once, with the bounds
that arithmetic needs. -/
theorem leadOf_spec (n : Nat) :
    n < 0x80 ∧ leadOf n = n ∨
      0x80 ≤ n ∧ n < 0x800 ∧ leadOf n = 0xC0 + n / 64 ∨
      0x800 ≤ n ∧ n < 0x10000 ∧ leadOf n = 0xE0 + n / 4096 ∨
      0x10000 ≤ n ∧ leadOf n = 0xF0 + n / 262144 := by
  unfold leadOf
  split
  · omega
  · split
    · omega
    · split <;> omega

/-- No character begins with a continuation byte, nor with one of the bytes that would
spell too few bits or too many. -/
theorem leadOf_range {n : Nat} (h : n.isValidChar) :
    leadOf n < 0x80 ∨ 0xC2 ≤ leadOf n ∧ leadOf n ≤ 0xF4 := by
  have hn : n < 0x110000 := by
    rcases h with h | h <;> omega
  have hlead := leadOf_spec n
  omega

/-- `p` is what the byte `b` starts: what fits are the characters with this lead
byte. -/
structure Begun.StartedBy (p : Begun) (b : UInt8) : Prop extends p.Waits where
  admits_iff : ∀ n, p.Admits n ↔ n.isValidChar ∧ leadOf n = b.toNat
  tail : ∀ n, leadOf n = b.toNat → tailOf n = lastBytes n p.missing

variable {b low high : UInt8} {bits : Nat}

/-- A size of characters begins at the number `least`, and the range of the second
byte keeps out what is smaller or no character. -/
theorem startedBy_of_least {missing least : Nat} (hwaits : Begun.Waits ⟨bits, missing, low, high⟩)
    (hlead : ∀ n, leadOf n = b.toNat ↔ least ≤ n ∧ n / unitOf missing = bits)
    (htail : ∀ n, leadOf n = b.toNat → tailOf n = lastBytes n missing)
    (hfits : ∀ n, n / unitOf missing = bits →
      (low.toNat ≤ 0x80 + n / unitOf (missing - 1) % 64 ∧
          0x80 + n / unitOf (missing - 1) % 64 ≤ high.toNat ↔
        n.isValidChar ∧ least ≤ n)) : Begun.StartedBy ⟨bits, missing, low, high⟩ b := by
  refine ⟨hwaits, fun n => ?_, htail⟩
  rw [hlead]
  constructor
  · rintro ⟨hbits, hl, hh⟩
    obtain ⟨hvalid, hn⟩ := (hfits n hbits).1 ⟨hl, hh⟩
    exact ⟨hvalid, hn, hbits⟩
  · rintro ⟨hvalid, hn, hbits⟩
    obtain ⟨hl, hh⟩ := (hfits n hbits).2 ⟨hvalid, hn⟩
    exact ⟨hbits, hl, hh⟩

/-- The bytes `C2` to `DF` begin the characters of two bytes; `C0` and `C1` would begin shorter
ones. -/
theorem startedBy_two (hb : b.toNat = 0xC0 + bits) (h : 2 ≤ bits) (h' : bits < 0x20) :
    Begun.StartedBy ⟨bits, 1, 0x80, 0xBF⟩ b := by
  have hlead (n : Nat) : leadOf n = b.toNat ↔ 0x80 ≤ n ∧ n / 64 = bits := by
    have hn := leadOf_spec n
    omega
  have hwaits : Begun.Waits ⟨bits, 1, 0x80, 0xBF⟩ := ⟨Nat.one_pos, Nat.le_refl _, Nat.le_refl _⟩
  refine startedBy_of_least hwaits hlead (fun n hn => ?_) fun n hn => ?_
  · obtain ⟨hleast, hbits⟩ := (hlead n).1 hn
    rw [tailOf, if_neg (by omega), if_pos (by omega)]
    rfl
  · have hbits : n / 64 = bits := hn
    show 0x80 ≤ 0x80 + n / 1 % 64 ∧ 0x80 + n / 1 % 64 ≤ 0xBF ↔ (_ ∨ _) ∧ _
    omega

/-- The bytes `E0` to `EF` begin the characters of three bytes, where the second byte keeps out
shorter ones and surrogates. -/
theorem startedBy_three (hb : b.toNat = 0xE0 + bits) (h : bits < 0x10)
    (hlow : 0x80 ≤ low.toNat) (hhigh : high.toNat ≤ 0xBF)
    (hfits : ∀ n, n / 4096 = bits →
      (low.toNat ≤ 0x80 + n / 64 % 64 ∧ 0x80 + n / 64 % 64 ≤ high.toNat ↔
        n.isValidChar ∧ 0x800 ≤ n)) : Begun.StartedBy ⟨bits, 2, low, high⟩ b := by
  have hlead (n : Nat) : leadOf n = b.toNat ↔ 0x800 ≤ n ∧ n / 4096 = bits := by
    have hn := leadOf_spec n
    omega
  refine startedBy_of_least ⟨Nat.two_pos, hlow, hhigh⟩ hlead (fun n hn => ?_) hfits
  obtain ⟨hleast, hbits⟩ := (hlead n).1 hn
  rw [tailOf, if_neg (by omega), if_neg (by omega), if_pos (by omega)]
  rfl

/-- The bytes `F0` to `F4` begin the characters of four bytes, where the second byte keeps out
shorter ones and those past U+10FFFF. -/
theorem startedBy_four (hb : b.toNat = 0xF0 + bits) (hlow : 0x80 ≤ low.toNat)
    (hhigh : high.toNat ≤ 0xBF)
    (hfits : ∀ n, n / 262144 = bits →
      (low.toNat ≤ 0x80 + n / 4096 % 64 ∧ 0x80 + n / 4096 % 64 ≤ high.toNat ↔
        n.isValidChar ∧ 0x10000 ≤ n)) : Begun.StartedBy ⟨bits, 3, low, high⟩ b := by
  have hlead (n : Nat) : leadOf n = b.toNat ↔ 0x10000 ≤ n ∧ n / 262144 = bits := by
    have hn := leadOf_spec n
    omega
  refine startedBy_of_least ⟨Nat.succ_pos 2, hlow, hhigh⟩ hlead (fun n hn => ?_) hfits
  obtain ⟨hleast, hbits⟩ := (hlead n).1 hn
  rw [tailOf, if_neg (by omega), if_neg (by omega), if_neg (by omega)]
  rfl

/-- **What a byte is at the start of a character:** a character, the lead byte of
some, or the lead byte of none. -/
theorem lead_cases (b : UInt8) :
    (b.toNat < 0x80 ∧ lead b = .inl (.char (Char.ofNat b.toNat))) ∨
    ((∀ n, n.isValidChar → leadOf n ≠ b.toNat) ∧ lead b = .inl .invalid) ∨
    ∃ p : Begun, p.StartedBy b ∧ lead b = .inr p := by
  generalize hlead : lead b = found
  unfold lead at hlead
  dsimp only at hlead
  split at hlead
  · next h => exact .inl ⟨h, hlead.symm⟩
  refine .inr ?_
  split at hlead
  · next h =>
    refine .inl ⟨fun n hn => ?_, hlead.symm⟩
    have hrange := leadOf_range hn
    omega
  split at hlead
  · exact .inr ⟨_, startedBy_two (by omega) (by omega) (by omega), hlead.symm⟩
  split at hlead
  · next h =>
    refine .inr ⟨_, startedBy_three h (by decide) (by decide) (by decide) fun n hn => ?_,
      hlead.symm⟩
    show 0xA0 ≤ _ ∧ _ ≤ 0xBF ↔ (_ ∨ _) ∧ _
    omega
  split at hlead
  · next h =>
    refine .inr ⟨_, startedBy_three h (by decide) (by decide) (by decide) fun n hn => ?_,
      hlead.symm⟩
    show 0x80 ≤ _ ∧ _ ≤ 0x9F ↔ (_ ∨ _) ∧ _
    omega
  split at hlead
  · refine .inr ⟨_, startedBy_three (by omega) (by omega) (by decide) (by decide) fun n hn => ?_,
      hlead.symm⟩
    show 0x80 ≤ _ ∧ _ ≤ 0xBF ↔ (_ ∨ _) ∧ _
    omega
  split at hlead
  · next h =>
    refine .inr ⟨_, startedBy_four h (by decide) (by decide) fun n hn => ?_, hlead.symm⟩
    show 0x90 ≤ _ ∧ _ ≤ 0xBF ↔ (_ ∨ _) ∧ _
    omega
  split at hlead
  · refine .inr ⟨_, startedBy_four (by omega) (by decide) (by decide) fun n hn => ?_, hlead.symm⟩
    show 0x80 ≤ _ ∧ _ ≤ 0xBF ↔ (_ ∨ _) ∧ _
    omega
  split at hlead
  · next h =>
    refine .inr ⟨_, startedBy_four h (by decide) (by decide) fun n hn => ?_, hlead.symm⟩
    show 0x80 ≤ _ ∧ _ ≤ 0x8F ↔ (_ ∨ _) ∧ _
    omega
  · refine .inl ⟨fun n hn => ?_, hlead.symm⟩
    have hrange := leadOf_range hn
    omega

/-! ### One byte -/

/-- Behind the lead byte everything that fits is a character with that lead byte, so the
invariant holds when a character is begun. -/
theorem Begun.StartedBy.keeps {p : Begun} {b : UInt8} (h : p.StartedBy b) : p.Keeps [b] := by
  refine ⟨h.toWaits, fun n hn => ?_⟩
  obtain ⟨hvalid, hlead⟩ := (h.admits_iff n).1 hn
  refine ⟨hvalid, ?_⟩
  rw [encodeChar_ofNat hvalid, hlead, h.tail n hlead, UInt8.ofNat_toNat]
  rfl

/-- **A byte at the start of a character** is one, is the start of some, or is
ill-formed by itself. -/
theorem start_cases (b : UInt8) :
    (∃ c, encodeChar c = [b] ∧ start b = ([.char c], none)) ∨
    start b = ([.invalid], none) ∨
    ∃ p : Begun, p.Keeps [b] ∧ start b = ([], some p) := by
  rcases lead_cases b with ⟨hb, hlead⟩ | ⟨-, hlead⟩ | ⟨p, hp, hlead⟩
  · have hvalid : b.toNat.isValidChar := .inl (by omega)
    refine .inl ⟨Char.ofNat b.toNat, ?_, by rw [start, hlead]⟩
    rw [encodeChar_ofNat hvalid, leadOf, tailOf, if_pos hb, if_pos hb, UInt8.ofNat_toNat]
  · exact .inr (.inl (by rw [start, hlead]))
  · exact .inr (.inr ⟨p, hp.keeps, by rw [start, hlead]⟩)

variable {p : Begun} {read : Bytes}

/-- A byte in range takes six bits off what the numbers leave open.  This is the step of the
invariant. -/
theorem Begun.Keeps.admits_of_next (h : p.Keeps read) (hb : p.low ≤ b ∧ b ≤ p.high) {n : Nat}
    (hn : n / unitOf (p.missing - 1) = p.bits * 64 + (b.toNat - 0x80)) :
    p.Admits n ∧ read ++ lastBytes n p.missing = read ++ [b] ++ lastBytes n (p.missing - 1) := by
  obtain ⟨hlow, hhigh⟩ := hb
  rw [UInt8.le_iff_toNat_le] at hlow hhigh
  have hge := h.low_ge
  have hle := h.high_le
  obtain ⟨m, hm⟩ := h.exists_missing_eq
  rw [hm, Nat.add_sub_cancel] at hn
  have hdigit : 0x80 + n / unitOf m % 64 = b.toNat := by omega
  refine ⟨⟨?_, ?_, ?_⟩, ?_⟩
  · rw [hm, unitOf, ← Nat.div_div_eq_div_mul, hn]
    omega
  · rw [hm, Nat.add_sub_cancel]
    omega
  · rw [hm, Nat.add_sub_cancel]
    omega
  · rw [hm, Nat.add_sub_cancel, lastBytes, continuation, hdigit, UInt8.ofNat_toNat,
      List.append_assoc]
    rfl

/-- A byte that cannot come next ends the character as ill-formed and is looked at again, as the
first of another. -/
theorem Begun.next_of_not_in_range (hb : ¬ (p.low ≤ b ∧ b ≤ p.high)) :
    p.next b = (.invalid :: (start b).1, (start b).2) := by
  rw [Begun.next, if_neg hb]

/-- **A byte within a character** ends it, carries it on, or breaks it off and is read
again as a start. -/
theorem Begun.Keeps.next_cases (h : p.Keeps read) (b : UInt8) :
    (∃ c, encodeChar c = read ++ [b] ∧ p.next b = ([.char c], none)) ∨
    (∃ q : Begun, q.Keeps (read ++ [b]) ∧ p.next b = ([], some q)) ∨
    p.next b = (.invalid :: (start b).1, (start b).2) := by
  by_cases hb : p.low ≤ b ∧ b ≤ p.high
  · by_cases hm : p.missing ≤ 1
    · -- The last byte leaves one number.
      have hone : p.missing - 1 = 0 := by omega
      have hbits : (p.bits * 64 + (b.toNat - 0x80)) / unitOf (p.missing - 1) =
          p.bits * 64 + (b.toNat - 0x80) := by
        rw [hone]
        exact Nat.div_one _
      obtain ⟨hadmits, hbytes⟩ := h.admits_of_next hb hbits
      obtain ⟨-, hspells⟩ := h.spells _ hadmits
      refine .inl ⟨_, ?_, by rw [Begun.next, if_pos hb, if_pos hm]⟩
      rw [hspells, hbytes, hone, lastBytes, List.append_nil]
    · refine .inr (.inl ⟨⟨p.bits * 64 + (b.toNat - 0x80), p.missing - 1, 0x80, 0xBF⟩, ?_,
        by rw [Begun.next, if_pos hb, if_neg hm]⟩)
      refine ⟨⟨Nat.sub_pos_of_lt (by omega), Nat.le_refl _, Nat.le_refl _⟩, fun n hn => ?_⟩
      obtain ⟨hadmits, hbytes⟩ := h.admits_of_next hb hn.bits
      obtain ⟨hvalid, hspells⟩ := h.spells n hadmits
      exact ⟨hvalid, hspells.trans hbytes⟩
  · exact .inr (.inr (Begun.next_of_not_in_range hb))

/-! ### The bytes of a character -/

/-- A lead byte carries no character on: it ends the one that was begun as ill-formed and begins
its own. -/
theorem Begun.Waits.next_lead (h : p.Waits) {n : Nat} (hn : n.isValidChar) :
    p.next (UInt8.ofNat (leadOf n)) =
      (.invalid :: (start (UInt8.ofNat (leadOf n))).1, (start (UInt8.ofNat (leadOf n))).2) := by
  refine Begun.next_of_not_in_range ?_
  rintro ⟨hlow, hhigh⟩
  rw [UInt8.le_iff_toNat_le, toNat_lead hn] at hlow hhigh
  have hge := h.low_ge
  have hle := h.high_le
  have hrange := leadOf_range hn
  omega

/-- The next byte of a number that fits takes the reader on to the rest of it, and to the
character where nothing is missing any more. -/
theorem Begun.Admits.next {n : Nat} (h : p.Admits n) {m : Nat} (hm : p.missing = m + 1) :
    p.next (continuation n (unitOf m)) =
      if m = 0 then ([.char (Char.ofNat n)], none)
      else ([], some ⟨n / unitOf m, m, 0x80, 0xBF⟩) := by
  obtain ⟨hbits, hlow, hhigh⟩ := h
  rw [hm, Nat.add_sub_cancel] at hlow hhigh
  rw [hm, unitOf, ← Nat.div_div_eq_div_mul] at hbits
  have hbyte := toNat_continuation n (unitOf m)
  have hrange : p.low ≤ continuation n (unitOf m) ∧ continuation n (unitOf m) ≤ p.high := by
    rw [UInt8.le_iff_toNat_le, UInt8.le_iff_toNat_le, hbyte]
    exact ⟨hlow, hhigh⟩
  have hnumber : p.bits * 64 + ((continuation n (unitOf m)).toNat - 0x80) = n / unitOf m := by
    omega
  rw [Begun.next, if_pos hrange, hnumber, hm, Nat.add_sub_cancel]
  by_cases hzero : m = 0
  · subst hzero
    rw [if_pos (Nat.le_refl _), if_pos rfl, unitOf, Nat.div_one]
  · rw [if_neg (by omega), if_neg hzero]

/-- The missing bytes of a number that fits are read as its character.  By induction on how many
are missing. -/
theorem itemsFrom_lastBytes {n : Nat} (rest : Bytes) {m : Nat} (h : p.Admits n)
    (hm : p.missing = m + 1) :
    itemsFrom (some p) (lastBytes n (m + 1) ++ rest) = .char (Char.ofNat n) :: items rest := by
  induction m generalizing p with
  | zero =>
    rw [lastBytes, List.cons_append, itemsFrom, h.next hm]
    rfl
  | succ m ih =>
    rw [lastBytes, List.cons_append, itemsFrom, h.next hm, if_neg (Nat.succ_ne_zero m)]
    refine ih ⟨rfl, Nat.le_add_right _ _, ?_⟩ rfl
    show 0x80 + n / unitOf m % 64 ≤ 0xBF
    omega

/-- **The bytes of a character are read as that character,** whatever follows: the lead byte
says how many there are. -/
theorem items_encodeChar_append (c : Char) (rest : Bytes) :
    items (encodeChar c ++ rest) = .char c :: items rest := by
  have hvalid : c.toNat.isValidChar := c.valid
  have hlead : (UInt8.ofNat (leadOf c.toNat)).toNat = leadOf c.toNat := toNat_lead hvalid
  rw [encodeChar_eq, List.cons_append, items, itemsFrom, start]
  rcases lead_cases (UInt8.ofNat (leadOf c.toNat)) with ⟨hlt, hc⟩ | ⟨hnone, -⟩ | ⟨p, hp, hstarted⟩
  · rw [hlead] at hlt
    have hsingle : c.toNat = leadOf c.toNat := by
      have hspec := leadOf_spec c.toNat
      omega
    have htail : tailOf c.toNat = [] := if_pos (by omega)
    rw [hc, hlead, ← hsingle, htail, Char.ofNat_toNat]
    rfl
  · exact absurd hlead.symm (hnone _ hvalid)
  · obtain ⟨m, hm⟩ := hp.exists_missing_eq
    have hadmits : p.Admits c.toNat := (hp.admits_iff _).2 ⟨hvalid, hlead.symm⟩
    rw [hstarted, hp.tail _ hlead.symm, hm]
    exact (itemsFrom_lastBytes rest hadmits hm).trans (by rw [Char.ofNat_toNat])

/-- A character that is broken off by another leaves one ill-formed sequence, and the other is
read as if it stood alone. -/
theorem Begun.Waits.itemsFrom_encodeChar_append (h : p.Waits) (c : Char) (rest : Bytes) :
    itemsFrom (some p) (encodeChar c ++ rest) = .invalid :: items (encodeChar c ++ rest) := by
  have hnext := h.next_lead (n := c.toNat) c.valid
  rw [encodeChar_eq, List.cons_append, itemsFrom, hnext]
  rfl

end Utf8

end DocLint
