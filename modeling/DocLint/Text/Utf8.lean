/-
# UTF-8

The bytes that `read_text` decodes, SPEC_FULL.md §7 and §10.3, and that a settings file must
spell, §10.7.

Bytes and characters.  A character is a lead byte and its continuation bytes,
the first of which has a range of its own after some leads; so no character has
two spellings, no surrogate is spelled, and nothing lies above U+10FFFF.

| lead | continuation bytes | range of the first |
| --- | ---: | --- |
| `00` … `7F` | 0 | |
| `C2` … `DF` | 1 | `80` … `BF` |
| `E0` | 2 | `A0` … `BF` |
| `E1` … `EC`, `EE`, `EF` | 2 | `80` … `BF` |
| `ED` | 2 | `80` … `9F` |
| `F0` | 3 | `90` … `BF` |
| `F1` … `F3` | 3 | `80` … `BF` |
| `F4` | 3 | `80` … `8F` |

`decodeLossy` puts one U+FFFD for each longest start of a character that is not
carried on, and for each byte that starts none; `decode?` gives up there.
-/

import DocLint.Text

namespace DocLint

/-- A byte sequence, such as the contents of a file. -/
abbrev Bytes := List UInt8

namespace Utf8

/-- A character that has been started: the bits read so far, how many
continuation bytes are missing, and the range that the next one must lie in. -/
structure Begun where
  bits : Nat
  missing : Nat
  low : UInt8
  high : UInt8
deriving Repr, DecidableEq

/-- The end of one character or of one ill-formed sequence. -/
inductive Item
  | char (c : Char)
  | invalid
deriving Repr, DecidableEq

/-- Reads a byte at the start of a character: a whole character, a start of
one, or neither. -/
def lead (b : UInt8) : Item ⊕ Begun :=
  let n := b.toNat
  if n < 0x80 then .inl (.char (Char.ofNat n))
  else if n < 0xC2 then .inl .invalid
  else if n < 0xE0 then .inr ⟨n - 0xC0, 1, 0x80, 0xBF⟩
  else if n = 0xE0 then .inr ⟨0, 2, 0xA0, 0xBF⟩
  else if n = 0xED then .inr ⟨0xD, 2, 0x80, 0x9F⟩
  else if n < 0xF0 then .inr ⟨n - 0xE0, 2, 0x80, 0xBF⟩
  else if n = 0xF0 then .inr ⟨0, 3, 0x90, 0xBF⟩
  else if n < 0xF4 then .inr ⟨n - 0xF0, 3, 0x80, 0xBF⟩
  else if n = 0xF4 then .inr ⟨4, 3, 0x80, 0x8F⟩
  else .inl .invalid

/-- Reads a byte at the start of a character: what it ends and what it starts. -/
def start (b : UInt8) : List Item × Option Begun :=
  match lead b with
  | .inl item => ([item], none)
  | .inr p => ([], some p)

/-- Reads a byte within the character that `p` started.  A byte outside the
range ends an ill-formed sequence and is read again as a start. -/
def Begun.next (p : Begun) (b : UInt8) : List Item × Option Begun :=
  if p.low ≤ b ∧ b ≤ p.high then
    let bits := p.bits * 64 + (b.toNat - 0x80)
    if p.missing ≤ 1 then ([.char (Char.ofNat bits)], none)
    else ([], some ⟨bits, p.missing - 1, 0x80, 0xBF⟩)
  else
    let (items, q) := start b
    (.invalid :: items, q)

/-- The characters and ill-formed sequences of `bytes`, after a character that
may have been started before them. -/
def itemsFrom : Option Begun → Bytes → List Item
  | none, [] => []
  | some _, [] => [.invalid]
  | none, b :: bytes =>
    let (items, q) := start b
    items ++ itemsFrom q bytes
  | some p, b :: bytes =>
    let (items, q) := p.next b
    items ++ itemsFrom q bytes

/-- The characters and ill-formed sequences of `bytes`, from left to right. -/
def items (bytes : Bytes) : List Item := itemsFrom none bytes

/-- U+FFFD, which stands for an ill-formed sequence. -/
def replacement : Char := Char.ofNat 0xFFFD

/-- The character an item is shown as. -/
def Item.toChar : Item → Char
  | .char c => c
  | .invalid => replacement

/-- The character an item is, if it is one. -/
def Item.char? : Item → Option Char
  | .char c => some c
  | .invalid => none

/-- The text that `bytes` spell, with U+FFFD for what is ill-formed. -/
def decodeLossy (bytes : Bytes) : Text := (items bytes).map Item.toChar

/-- The text that `bytes` spell; none where anything is ill-formed. -/
def decode? (bytes : Bytes) : Option Text := (items bytes).mapM Item.char?

/-- The bytes that spell `c`. -/
def encodeChar (c : Char) : Bytes :=
  let n := c.toNat
  let tail (unit : Nat) : UInt8 := UInt8.ofNat (0x80 + n / unit % 64)
  if n < 0x80 then [UInt8.ofNat n]
  else if n < 0x800 then [UInt8.ofNat (0xC0 + n / 64), tail 1]
  else if n < 0x10000 then [UInt8.ofNat (0xE0 + n / 4096), tail 64, tail 1]
  else [UInt8.ofNat (0xF0 + n / 262144), tail 4096, tail 64, tail 1]

/-- The bytes that spell a text. -/
def encode (t : Text) : Bytes := t.flatMap encodeChar

/-- A string literal stands for the bytes that spell it, where bytes are asked for. -/
instance : Coe String Bytes := ⟨fun s => encode s.toList⟩

/-- The empty text has no bytes, and it is the only one: every character has a byte at least
(`encodeChar_ne_nil`). -/
@[simp]
theorem encode_nil : encode [] = [] := rfl

/-- A text is encoded character by character, from left to right, with no mark in front and none
between. -/
@[simp]
theorem encode_cons (c : Char) (t : Text) : encode (c :: t) = encodeChar c ++ encode t := rfl

/-- Texts are encoded one behind the other, so cutting a text and cutting its bytes come to the
same. -/
@[simp]
theorem encode_append (s t : Text) : encode (s ++ t) = encode s ++ encode t :=
  List.flatMap_append

/-- Every character has a byte at least, and so no character is lost among the bytes. -/
theorem encodeChar_ne_nil (c : Char) : encodeChar c ≠ [] := by
  unfold encodeChar
  dsimp only
  split
  · exact List.cons_ne_nil _ _
  · split
    · exact List.cons_ne_nil _ _
    · split <;> exact List.cons_ne_nil _ _

/-- The number of bytes that spell a text. -/
def byteCount (t : Text) : Nat := (encode t).length

/-- The bytes of two texts add up, which is how the length of a joined path is known from its
parts. -/
theorem byteCount_append (s t : Text) : byteCount (s ++ t) = byteCount s + byteCount t := by
  rw [byteCount, encode_append, List.length_append]
  rfl

/-- **Every character takes a byte at least,** so a limit on the bytes of a path bounds its
characters too. -/
theorem length_le_byteCount (t : Text) : t.length ≤ byteCount t := by
  induction t with
  | nil => exact Nat.le_refl 0
  | cons c t ih =>
    have hc : 0 < (encodeChar c).length := List.length_pos_iff.2 (encodeChar_ne_nil c)
    have ht : t.length ≤ (encode t).length := ih
    rw [byteCount, encode_cons, List.length_append, List.length_cons]
    omega

end Utf8

end DocLint
