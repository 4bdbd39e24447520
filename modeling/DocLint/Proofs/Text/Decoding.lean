/-
# Decoding keeps what is well formed

Decoding with replacement characters, SPEC_FULL.md §7 and §10.3.

Ill-formed bytes are read as U+FFFD and as nothing else.  Whatever stands around
the bytes of a text, those bytes are read as that text, and no other bytes are:

| given | then |
| --- | --- |
| bytes, those of a text, bytes | the text stands between what the two others are read as (`items_append_encode_append`) |
| a text that stands in what bytes are read as | the bytes are cut there into the same three (`decodeLossy_eq_append_iff`) |

The second needs a text without U+FFFD, which may stand for anything.

Ill-formed bytes can neither take a byte of a character nor lend it one: what has
been started is broken off where a lead byte comes (`Begun.Waits.next_lead`).  The
converse takes one item at a time off the bytes (`exists_begins`), and the rest is
read as if nothing had been there.
-/

import DocLint.Proofs.Text.Characters
import Mathlib.Data.List.Forall2
import Mathlib.Data.List.Infix

namespace DocLint

/-- A list is mapped by a function that may fail, where the function has a value for each
of its elements. -/
theorem mapM_eq_some_iff {α β : Type} {f : α → Option β} {l : List α} {r : List β} :
    l.mapM f = some r ↔ List.Forall₂ (fun a b => f a = some b) l r := by
  induction l generalizing r with
  | nil =>
    rw [List.forall₂_nil_left_iff]
    exact ⟨fun h => (Option.some.inj h).symm, fun h => h ▸ rfl⟩
  | cons a l ih =>
    rw [List.mapM_cons, List.forall₂_cons_left_iff]
    constructor
    · intro h
      obtain ⟨b, hb, h⟩ := Option.bind_eq_some_iff.1 h
      obtain ⟨bs, hbs, h⟩ := Option.bind_eq_some_iff.1 h
      exact ⟨b, bs, hb, ih.1 hbs, (Option.some.inj h).symm⟩
    · rintro ⟨b, bs, hb, hbs, rfl⟩
      rw [hb, ih.2 hbs]
      rfl

/-- A traversal succeeds where each of its steps does, so a list can be shown where each of its
elements can. -/
theorem exists_mapM_eq_some_iff {α β : Type} {f : α → Option β} {l : List α} :
    (∃ r, l.mapM f = some r) ↔ ∀ a ∈ l, ∃ b, f a = some b := by
  simp only [mapM_eq_some_iff]
  induction l with
  | nil => exact ⟨fun _ => nofun, fun _ => ⟨[], .nil⟩⟩
  | cons a l ih =>
    rw [List.forall_mem_cons, ← ih]
    constructor
    · rintro ⟨r, h⟩
      obtain ⟨b, r, hb, hr, rfl⟩ := List.forall₂_cons_left_iff.1 h
      exact ⟨⟨b, hb⟩, r, hr⟩
    · rintro ⟨⟨b, hb⟩, r, hr⟩
      exact ⟨b :: r, .cons hb hr⟩

namespace Utf8

/-! ### Reading what was written -/

theorem items_cons (b : UInt8) (bytes : Bytes) :
    items (b :: bytes) = (start b).1 ++ itemsFrom (start b).2 bytes := rfl

theorem itemsFrom_cons (p : Begun) (b : UInt8) (bytes : Bytes) :
    itemsFrom (some p) (b :: bytes) = (p.next b).1 ++ itemsFrom (p.next b).2 bytes := rfl

/-- A byte that breaks a character off is read as if it came first, so nothing well-formed is
lost to what was begun. -/
theorem itemsFrom_cons_of_invalid {p : Begun} {b : UInt8}
    (h : p.next b = (.invalid :: (start b).1, (start b).2)) (bytes : Bytes) :
    itemsFrom (some p) (b :: bytes) = .invalid :: items (b :: bytes) := by
  rw [itemsFrom_cons, h]
  rfl

/-- Encoded text is read back character by character, whatever stands behind it, be that the
middle of an ill-formed sequence. -/
theorem items_encode_append (t : Text) (rest : Bytes) :
    items (encode t ++ rest) = t.map .char ++ items rest := by
  induction t with
  | nil => rfl
  | cons c t ih =>
    rw [encode_cons, List.append_assoc, items_encodeChar_append, ih]
    rfl

/-- A character is read whatever stands in front of it, also where that started another.  By
induction on what stands in front, with any character begun. -/
theorem items_append_encodeChar_append (c : Char) (xs ys : Bytes) :
    items (xs ++ (encodeChar c ++ ys)) = items xs ++ .char c :: items ys ∧
      ∀ (p : Begun) (read : Bytes), p.Keeps read →
        itemsFrom (some p) (xs ++ (encodeChar c ++ ys)) =
          itemsFrom (some p) xs ++ .char c :: items ys := by
  induction xs with
  | nil =>
    refine ⟨items_encodeChar_append c ys, fun p read hp => ?_⟩
    rw [List.nil_append, hp.toWaits.itemsFrom_encodeChar_append, items_encodeChar_append]
    rfl
  | cons b xs ih =>
    obtain ⟨hitems, hstarted⟩ := ih
    have hhere : items (b :: (xs ++ (encodeChar c ++ ys))) =
        items (b :: xs) ++ .char c :: items ys := by
      rw [items_cons, items_cons, List.append_assoc]
      rcases start_cases b with ⟨d, -, hs⟩ | hs | ⟨p, hp, hs⟩
      · rw [hs]
        exact congrArg _ hitems
      · rw [hs]
        exact congrArg _ hitems
      · rw [hs]
        exact congrArg _ (hstarted p _ hp)
    refine ⟨hhere, fun p read hp => ?_⟩
    rcases hp.next_cases b with ⟨d, -, hs⟩ | ⟨q, hq, hs⟩ | hs
    · rw [List.cons_append, itemsFrom_cons, itemsFrom_cons, hs]
      exact congrArg _ hitems
    · rw [List.cons_append, itemsFrom_cons, itemsFrom_cons, hs]
      exact hstarted q _ hq
    · rw [List.cons_append, itemsFrom_cons_of_invalid hs, itemsFrom_cons_of_invalid hs, hhere]
      rfl

/-- **The bytes of a text are read as that text,** whatever stands on either side.  So
ill-formed bytes cannot hide what is well-formed. -/
theorem items_append_encode_append {t : Text} (h : t ≠ []) (xs ys : Bytes) :
    items (xs ++ encode t ++ ys) = items xs ++ t.map .char ++ items ys := by
  obtain ⟨c, t, rfl⟩ := List.exists_cons_of_ne_nil h
  rw [encode_cons, List.append_assoc, List.append_assoc,
    (items_append_encodeChar_append c xs _).1, items_encode_append, List.append_assoc]
  rfl

/-! ### One item at a time -/

/-- Behind the bytes `read`, of which the reader has kept `q`, the item `item` takes
the bytes `taken` off those that follow, and leaves `rest`. -/
structure Begins (q : Option Begun) (read : Bytes) (item : Item) (taken rest : Bytes) : Prop where
  /-- However little of the rest is there, it is read as if it stood alone. -/
  items_append : ∀ part, part <+: rest → itemsFrom q (taken ++ part) = item :: items part
  /-- A character takes the bytes that spell it. -/
  spells : ∀ c, item = .char c → encodeChar c = read ++ taken

/-- Bytes that begin with an item are read as that item, and reading starts anew behind it. -/
theorem Begins.items_eq {q : Option Begun} {read : Bytes} {item : Item} {taken rest : Bytes}
    (h : Begins q read item taken rest) : itemsFrom q (taken ++ rest) = item :: items rest :=
  h.items_append rest (List.prefix_refl rest)

/-- A started character ends in an item, be it that character or U+FFFD, so reading goes on from
there with nothing started. -/
theorem Begun.Keeps.exists_begins {p : Begun} {read : Bytes} (h : p.Keeps read) (bytes : Bytes) :
    ∃ item taken rest, bytes = taken ++ rest ∧ Begins (some p) read item taken rest := by
  induction bytes generalizing p read with
  | nil =>
    refine ⟨.invalid, [], [], rfl, fun part hpart => ?_, fun c hc => nomatch hc⟩
    obtain rfl := List.prefix_nil.1 hpart
    rfl
  | cons b bytes ih =>
    rcases h.next_cases b with ⟨c, hc, hs⟩ | ⟨q, hq, hs⟩ | hs
    · refine ⟨.char c, [b], bytes, rfl, fun part _ => ?_, fun d hd => ?_⟩
      · rw [List.singleton_append, itemsFrom_cons, hs]
        rfl
      · obtain rfl := Item.char.inj hd
        exact hc
    · obtain ⟨item, taken, rest, rfl, hbegins⟩ := ih hq
      refine ⟨item, b :: taken, rest, rfl, fun part hpart => ?_, fun d hd => ?_⟩
      · rw [List.cons_append, itemsFrom_cons, hs]
        exact hbegins.items_append part hpart
      · rw [hbegins.spells d hd, List.append_assoc]
        rfl
    · -- The byte is not taken, so all that is known of the rest is that it is next.
      refine ⟨.invalid, [], b :: bytes, rfl, fun part hpart => ?_, fun c hc => nomatch hc⟩
      rcases List.prefix_cons_iff.1 hpart with rfl | ⟨part, rfl, -⟩
      · rfl
      · exact itemsFrom_cons_of_invalid hs part

/-- **Bytes begin with an item,** if there are any, so they can be taken apart item by item. -/
theorem exists_begins (b : UInt8) (bytes : Bytes) :
    ∃ item taken rest, b :: bytes = taken ++ rest ∧ Begins none [] item taken rest := by
  rcases start_cases b with ⟨c, hc, hs⟩ | hs | ⟨p, hp, hs⟩
  · refine ⟨.char c, [b], bytes, rfl, fun part _ => ?_, fun d hd => ?_⟩
    · show items (b :: part) = _
      rw [items_cons, hs]
      rfl
    · obtain rfl := Item.char.inj hd
      exact hc
  · refine ⟨.invalid, [b], bytes, rfl, fun part _ => ?_, fun c hc => nomatch hc⟩
    show items (b :: part) = _
    rw [items_cons, hs]
    rfl
  · obtain ⟨item, taken, rest, rfl, hbegins⟩ := hp.exists_begins bytes
    refine ⟨item, b :: taken, rest, rfl, fun part hpart => ?_, fun c hc => ?_⟩
    · show items (b :: (taken ++ part)) = _
      rw [items_cons, hs]
      exact hbegins.items_append part hpart
    · exact hbegins.spells c hc

/-- Where the items are cut in two, so are the bytes.  By induction on the items in front. -/
theorem exists_of_items_eq_append {bytes : Bytes} {is js : List Item}
    (h : items bytes = is ++ js) :
    ∃ xs ys, bytes = xs ++ ys ∧ items xs = is ∧ items ys = js := by
  induction is generalizing bytes with
  | nil => exact ⟨[], bytes, rfl, rfl, h⟩
  | cons i is ih =>
    cases bytes with
    | nil => exact absurd h (List.cons_ne_nil _ _).symm
    | cons b bytes =>
      obtain ⟨item, taken, rest, hbytes, hbegins⟩ := exists_begins b bytes
      rw [hbytes] at h ⊢
      obtain ⟨rfl, hrest⟩ := List.cons.inj (hbegins.items_eq.symm.trans h)
      obtain ⟨xs, ys, rfl, hxs, hys⟩ := ih hrest
      refine ⟨taken ++ xs, ys, (List.append_assoc _ _ _).symm, ?_, hys⟩
      rw [← hxs]
      exact hbegins.items_append xs (List.prefix_append _ _)

/-- Only the bytes of a text are read as that text, since a character is read from its own bytes
alone. -/
theorem eq_encode_of_items_eq {bytes : Bytes} {t : Text} (h : items bytes = t.map .char) :
    bytes = encode t := by
  induction t generalizing bytes with
  | nil =>
    cases bytes with
    | nil => rfl
    | cons b bytes =>
      obtain ⟨item, taken, rest, hbytes, hbegins⟩ := exists_begins b bytes
      rw [hbytes] at h
      exact absurd (hbegins.items_eq.symm.trans h) (List.cons_ne_nil _ _)
  | cons c t ih =>
    cases bytes with
    | nil => exact absurd h (List.cons_ne_nil _ _).symm
    | cons b bytes =>
      obtain ⟨item, taken, rest, hbytes, hbegins⟩ := exists_begins b bytes
      rw [hbytes] at h ⊢
      obtain ⟨hitem, hrest⟩ := List.cons.inj (hbegins.items_eq.symm.trans h)
      rw [encode_cons, ih hrest, hbegins.spells c hitem]
      rfl

/-! ### Texts -/

theorem map_toChar_map_char (t : Text) : (t.map Item.char).map Item.toChar = t := by
  rw [List.map_map]
  exact List.map_id t

/-- A text without U+FFFD is shown only for the characters in it, since each byte that is none
of a character is shown as U+FFFD. -/
theorem eq_map_char_of_map_toChar {is : List Item} {t : Text} (h : is.map Item.toChar = t)
    (ht : replacement ∉ t) : is = t.map .char := by
  subst h
  rw [List.map_map]
  refine (List.map_id' is).symm.trans (List.map_congr_left fun i hi => ?_)
  cases i with
  | char c => rfl
  | invalid => exact absurd (List.mem_map_of_mem hi) ht

/-- Encoded text in front of any bytes comes back, and the bytes are read as if they stood
alone. -/
theorem decodeLossy_encode_append (t : Text) (rest : Bytes) :
    decodeLossy (encode t ++ rest) = t ++ decodeLossy rest := by
  rw [decodeLossy, items_encode_append, List.map_append, map_toChar_map_char]
  rfl

/-- **Encoded text comes back as it was,** U+FFFD included: a U+FFFD that was written cannot be
told from one that stands for bytes. -/
theorem decodeLossy_encode (t : Text) : decodeLossy (encode t) = t := by
  have h := decodeLossy_encode_append t []
  rw [List.append_nil] at h
  exact h.trans (List.append_nil t)

/-- **Only the bytes of a text are read as it,** if U+FFFD does not stand in it.  So ill-formed
bytes cannot fake what has no U+FFFD. -/
theorem decodeLossy_eq_iff {t : Text} (ht : replacement ∉ t) {bytes : Bytes} :
    decodeLossy bytes = t ↔ bytes = encode t := by
  constructor
  · exact fun h => eq_encode_of_items_eq (eq_map_char_of_map_toChar h ht)
  · rintro rfl
    exact decodeLossy_encode t

/-- **The bytes of a text spell it,** and no others do; whatever else is read has something
ill-formed in it. -/
theorem decode?_eq_some_iff {t : Text} {bytes : Bytes} :
    decode? bytes = some t ↔ bytes = encode t := by
  have hchar (i : Item) (c : Char) : i.char? = some c ↔ i = .char c := by
    cases i <;> simp [Item.char?]
  have hitems : decode? bytes = some t ↔ items bytes = t.map .char := by
    simp only [decode?, mapM_eq_some_iff, hchar]
    rw [← List.forall₂_map_right_iff, List.forall₂_eq_eq_eq]
  rw [hitems]
  constructor
  · exact eq_encode_of_items_eq
  · rintro rfl
    simpa [items, itemsFrom] using items_encode_append t []

/-- **Encoded text comes back between any bytes:** what stands in front is finished before it
and what stands behind starts anew. -/
theorem decodeLossy_append_encode_append {t : Text} (h : t ≠ []) (xs ys : Bytes) :
    decodeLossy (xs ++ encode t ++ ys) = decodeLossy xs ++ t ++ decodeLossy ys := by
  rw [decodeLossy, items_append_encode_append h, List.map_append, List.map_append,
    map_toChar_map_char]
  rfl

/-- A start that is broken off, a character, and a byte that starts none. -/
example : decodeLossy ([0xE5, 0x87] ++ encode ['A'] ++ [0x80]) =
    [replacement, 'A', replacement] := by
  decide

/-- **A text that is read was written.**  Where a text without U+FFFD stands in what
bytes are read as, the bytes hold its bytes in the same place. -/
theorem decodeLossy_eq_append_iff {t : Text} (hne : t ≠ []) (ht : replacement ∉ t)
    {bytes : Bytes} {u v : Text} :
    decodeLossy bytes = u ++ t ++ v ↔
      ∃ xs ys, bytes = xs ++ encode t ++ ys ∧ decodeLossy xs = u ∧ decodeLossy ys = v := by
  constructor
  · intro h
    obtain ⟨is, js, hitems, his, rfl⟩ := List.map_eq_append_iff.1 h
    obtain ⟨is, ts, rfl, rfl, hts⟩ := List.map_eq_append_iff.1 his
    obtain ⟨xts, ys, rfl, hxts, rfl⟩ := exists_of_items_eq_append hitems
    obtain ⟨xs, bs, rfl, rfl, hbs⟩ := exists_of_items_eq_append hxts
    rw [eq_map_char_of_map_toChar hts ht] at hbs
    exact ⟨xs, ys, by rw [eq_encode_of_items_eq hbs], rfl, rfl⟩
  · rintro ⟨xs, ys, rfl, rfl, rfl⟩
    exact decodeLossy_append_encode_append hne xs ys

/-- Bytes are shown as nothing only where there are none, since each item is shown and so is
each ill-formed sequence. -/
theorem decodeLossy_eq_nil_iff {bytes : Bytes} : decodeLossy bytes = [] ↔ bytes = [] := by
  constructor
  · intro h
    exact eq_encode_of_items_eq (t := []) (List.map_eq_nil_iff.1 h)
  · rintro rfl
    rfl

/-- A text without U+FFFD begins what is shown exactly where its bytes begin the bytes. -/
theorem prefix_decodeLossy_iff {t : Text} (hne : t ≠ []) (ht : replacement ∉ t) {bytes : Bytes} :
    t <+: decodeLossy bytes ↔ encode t <+: bytes := by
  constructor
  · rintro ⟨v, h⟩
    obtain ⟨xs, ys, rfl, hxs, -⟩ := (decodeLossy_eq_append_iff (u := []) hne ht).1 h.symm
    rw [decodeLossy_eq_nil_iff.1 hxs]
    exact List.prefix_append _ _
  · rintro ⟨ys, rfl⟩
    exact ⟨_, (decodeLossy_encode_append t ys).symm⟩

/-- **A pattern is read exactly where its bytes stand.**  What a linter looks for in a text can
so be looked for in the bytes. -/
theorem isInfix_decodeLossy_iff {t : Text} (hne : t ≠ []) (ht : replacement ∉ t) {bytes : Bytes} :
    t <:+: decodeLossy bytes ↔ encode t <:+: bytes := by
  constructor
  · rintro ⟨u, v, h⟩
    obtain ⟨xs, ys, rfl, -, -⟩ := (decodeLossy_eq_append_iff hne ht).1 h.symm
    exact ⟨xs, ys, rfl⟩
  · rintro ⟨xs, ys, rfl⟩
    exact ⟨_, _, (decodeLossy_append_encode_append hne xs ys).symm⟩

/-- **An ASCII character is read exactly where its byte stands,** since no other character has
such a byte. -/
theorem mem_decodeLossy_iff {c : Char} (h : c.toNat < 0x80) {bytes : Bytes} :
    c ∈ decodeLossy bytes ↔ UInt8.ofNat c.toNat ∈ bytes := by
  have hbyte : encode [c] = [UInt8.ofNat c.toNat] := by simp [encodeChar, h]
  have hne : replacement ∉ [c] := fun hmem => by
    rw [← List.mem_singleton.1 hmem] at h
    exact absurd h (by decide)
  rw [← List.singleton_infix_iff, isInfix_decodeLossy_iff (List.cons_ne_nil _ _) hne, hbyte,
    List.singleton_infix_iff]

/-- An ASCII character stands in a text exactly where its byte is among the bytes of the text.
-/
theorem mem_encode_iff {c : Char} (h : c.toNat < 0x80) {t : Text} :
    UInt8.ofNat c.toNat ∈ encode t ↔ c ∈ t := by
  rw [← mem_decodeLossy_iff h, decodeLossy_encode]

end Utf8

end DocLint
