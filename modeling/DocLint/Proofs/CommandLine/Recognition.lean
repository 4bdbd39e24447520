/-
# What is accepted of a command line

SPEC_FULL.md §10.6: what `parse_for` accepts.

Words are read as the items that they spell.  Here is the other half: nothing else is
accepted (`exists_spells_of_parse`).  It needs to know what an accepted word can be
(`Reading.word_eq_ok`):

| word | what was pending | behind it |
| --- | --- | --- |
| `--` | stays pending | there are only roots |
| one that stands alone | gets it as its value, or is judged | any word may come |
| one of options | is judged | any word may come, or a value must |

So a line that is accepted can be cut into spelled items from its end, and an option that
waits for a value always gets one.
-/

import DocLint.Association
import DocLint.Proofs.CommandLine.Spelling

namespace DocLint

namespace CommandLine

/-- In front of more words that spell items, the word spells some items as well. -/
def SpellsAlone (w : Bytes) : Prop :=
  ∀ items words, Spells items words → ∃ items', Spells items' (w :: words)

/-- So does the word with a value behind it. -/
def SpellsApart (w : Bytes) : Prop :=
  ∀ v items words, StandsAlone v → Spells items words → ∃ items', Spells items' (w :: v :: words)

variable {items : List Item} {words args : List Bytes} {o : Options} {w v name path : Bytes}

/-- Each word of a switch spells an item by itself. -/
theorem spellsAlone_of_mem_words {switch : Switch} (hw : w ∈ switch.words) : SpellsAlone w :=
  fun _ _ h => ⟨_, .switch hw h⟩

/-- Each word of an option spells an item together with the value behind it. -/
theorem spellsApart_of_mem_words {slot : Slot} (hw : w ∈ slot.words) : SpellsApart w :=
  fun _ _ _ hv h => ⟨_, .apart hw hv h⟩

/-- An option and its value joined by `=` spell an item in one word. -/
theorem spellsAlone_joined {slot : Slot} (hw : w ∈ slot.words) (v : Bytes) :
    SpellsAlone (w ++ equals :: v) :=
  fun _ _ h => ⟨_, .joined hw h⟩

/-- A letter of a switch may be put in front of the letters of a word that spells by itself. -/
theorem SpellsAlone.clustered {c : UInt8} (hc : c ≠ hyphen) (h : SpellsAlone (hyphen :: c :: w)) :
    SpellsAlone (hyphen :: Meaning.shortVerbose :: c :: w) := by
  intro items words hwords
  obtain ⟨items', h'⟩ := h items words hwords
  exact ⟨_, .clustered hc h'⟩

/-- A letter of a switch may be put in front of the letters of a word that takes its value from
the next. -/
theorem SpellsApart.clustered {c : UInt8} (hc : c ≠ hyphen) (h : SpellsApart (hyphen :: c :: w)) :
    SpellsApart (hyphen :: Meaning.shortVerbose :: c :: w) := by
  intro v items words hv hwords
  obtain ⟨items', h'⟩ := h v items words hv hwords
  exact ⟨_, .clustered hc h'⟩

/-- Whatever `-f` has behind it within its word is a value, joined by `=` or not. -/
theorem spellsAlone_format (hw : w ≠ []) : SpellsAlone (hyphen :: Meaning.shortFormat :: w) := by
  intro items words h
  by_cases hequals : w.head? = some equals
  · obtain ⟨v, rfl⟩ := List.head?_eq_some_iff.1 hequals
    have hw : ("-f" : Bytes) ∈ Slot.format.words := by decide
    exact ⟨_, .joined hw h⟩
  · exact ⟨_, .glued hw hequals h⟩

/-- A long name is that of an option with a value, of a switch, or one of the two that stop a
command. -/
theorem long?_eq_some {m : Meaning} (h : Meaning.long? name = some m) :
    (∃ slot, m = .slot slot ∧ hyphen :: hyphen :: name ∈ slot.words) ∨
      (∃ switch, m = .switch switch ∧ hyphen :: hyphen :: name ∈ switch.words) ∨
      m = .help ∨ m = .version := by
  have hmem := Association.mem_of_lookup h
  simp only [List.mem_cons, Prod.mk.injEq, List.not_mem_nil, or_false] at hmem
  rcases hmem with ⟨rfl, rfl⟩ | ⟨rfl, rfl⟩ | ⟨rfl, rfl⟩ | ⟨rfl, rfl⟩ | ⟨rfl, rfl⟩ | ⟨rfl, rfl⟩
  · exact .inl ⟨.format, rfl, by decide⟩
  · exact .inl ⟨.config, rfl, by decide⟩
  · exact .inr (.inl ⟨.listRules, rfl, by decide⟩)
  · exact .inr (.inl ⟨.verbose, rfl, by decide⟩)
  · exact .inr (.inr (.inl rfl))
  · exact .inr (.inr (.inr rfl))

/-- A letter is that of the format, of the one switch that has a letter, or one of the two that
stop a command. -/
theorem short?_eq_some {c : UInt8} {m : Meaning} (h : Meaning.short? c = some m) :
    c = Meaning.shortFormat ∧ m = .slot .format ∨
      c = Meaning.shortVerbose ∧ m = .switch .verbose ∨ m = .help ∨ m = .version := by
  have hmem := Association.mem_of_lookup h
  simp only [List.mem_cons, Prod.mk.injEq, List.not_mem_nil, or_false] at hmem
  exact hmem.imp_right (Or.imp_right (Or.imp And.right And.right))

namespace Reading

variable {r s t : Reading} {slot : Slot} {switch : Switch}

/-- What an accepted word of options does: what was pending has been judged, and the word is
complete or waits for its value. -/
structure Accepts (r s : Reading) (w : Bytes) : Prop where
  settled : ∃ t, r.settle = .ok t
  positionalOnly : s.positionalOnly = r.positionalOnly
  spells : s.pending = none ∧ SpellsAlone w ∨
    (∃ slot, s.pending = some (slot, none)) ∧ SpellsApart w

/-- What is attached was spelled with its option in one word. -/
theorem accepts_of_attach (hw : SpellsAlone w) (h : r.attach slot v = .ok s) : r.Accepts s w := by
  obtain ⟨t, hsettle, -⟩ := attach_eq_ok_iff.1 h
  obtain ⟨hpending, hpositional⟩ := attach_keeps h
  exact ⟨⟨t, hsettle⟩, hpositional, .inl ⟨hpending, hw⟩⟩

theorem settled_of_turnOn (h : r.turnOn switch = .ok s) : ∃ t, r.settle = .ok t := by
  cases hsettle : r.settle with
  | error stop => simp [turnOn, hsettle] at h
  | ok t => exact ⟨t, rfl⟩

/-- What is turned on was spelled by one word, and nothing was pending that could not be judged.
-/
theorem accepts_of_turnOn (hw : SpellsAlone w) (h : r.turnOn switch = .ok s) : r.Accepts s w := by
  obtain ⟨hpending, hpositional⟩ := turnOn_keeps h
  exact ⟨settled_of_turnOn h, hpositional, .inl ⟨hpending, hw⟩⟩

/-- What waits for a value was spelled by a word that leaves the value to the next. -/
theorem accepts_of_await (hw : SpellsApart w) (h : r.await slot = .ok s) : r.Accepts s w := by
  obtain ⟨t, hsettle, rfl⟩ := await_eq_ok_iff.1 h
  exact ⟨⟨t, hsettle⟩, (settle_keeps hsettle).2.2, .inr ⟨⟨slot, rfl⟩, hw⟩⟩

theorem halt_ne_ok {stop : Stop} : r.halt stop ≠ .ok s := by
  unfold halt
  split <;> simp

/-- A long word is accepted as one that waits for its value, as a switch, or with its value
joined to it. -/
theorem long_eq_ok (h : r.long name = .ok s) :
    (∃ slot, hyphen :: hyphen :: name ∈ slot.words ∧ r.await slot = .ok s) ∨
      (∃ switch, hyphen :: hyphen :: name ∈ switch.words ∧ r.turnOn switch = .ok s) ∨
      ∃ slot front v, name = front ++ equals :: v ∧ hyphen :: hyphen :: front ∈ slot.words ∧
        r.attach slot v = .ok s := by
  cases hsplit : Text.splitFirst equals name with
  | none =>
    cases hlong : Meaning.long? name with
    | none => simp [long, hsplit, hlong] at h
    | some m =>
      rcases long?_eq_some hlong with ⟨slot, rfl, hw⟩ | ⟨switch, rfl, hw⟩ | rfl | rfl <;>
        simp only [long, hsplit, hlong] at h
      · exact .inl ⟨slot, hw, h⟩
      · exact .inr (.inl ⟨switch, hw, h⟩)
      · exact absurd h halt_ne_ok
      · exact absurd h halt_ne_ok
  | some parts =>
    obtain ⟨front, v⟩ := parts
    obtain ⟨rfl, -⟩ := Text.splitFirst_eq_some_iff.1 hsplit
    cases hlong : Meaning.long? front with
    | none => simp [long, hsplit, hlong] at h
    | some m =>
      rcases long?_eq_some hlong with ⟨slot, rfl, hw⟩ | ⟨switch, rfl, hw⟩ | rfl | rfl <;>
        simp only [long, hsplit, hlong, reduceCtorEq] at h
      exact .inr (.inr ⟨slot, front, v, rfl, hw, h⟩)

/-- **A word with two hyphens that is accepted spells an item,** or the first half of one. -/
theorem accepts_of_long (h : r.long name = .ok s) : r.Accepts s (hyphen :: hyphen :: name) := by
  rcases long_eq_ok h with ⟨slot, hw, h⟩ | ⟨switch, hw, h⟩ | ⟨slot, front, v, rfl, hw, h⟩
  · exact accepts_of_await (spellsApart_of_mem_words hw) h
  · exact accepts_of_turnOn (spellsAlone_of_mem_words hw) h
  · exact accepts_of_attach (spellsAlone_joined hw v) h

/-- Short options are accepted as `f`, which takes all behind it for its value or waits for
one, or as `v` with more of them behind it. -/
theorem short_eq_ok {c : UInt8} (h : r.short (c :: w) = .ok s) :
    (c = Meaning.shortFormat ∧ w = [] ∧ r.await .format = .ok s) ∨
      (c = Meaning.shortFormat ∧ w ≠ [] ∧ r.attach .format (dropEquals w) = .ok s) ∨
      c = Meaning.shortVerbose ∧ ∃ t, r.turnOn .verbose = .ok t ∧ t.short w = .ok s := by
  cases hshort : Meaning.short? c with
  | none => simp [short, hshort] at h
  | some m =>
    rcases short?_eq_some hshort with ⟨rfl, rfl⟩ | ⟨rfl, rfl⟩ | rfl | rfl
    · rw [short_slot hshort] at h
      split at h
      · exact .inl ⟨rfl, ‹_›, h⟩
      · exact .inr (.inl ⟨rfl, ‹_›, h⟩)
    · exact .inr (.inr ⟨rfl, (short_switch_eq_ok_iff hshort).1 h⟩)
    · simp [short, hshort, halt_ne_ok] at h
    · simp [short, hshort, halt_ne_ok] at h

/-- **A cluster that is accepted spells its letters,** the last of them perhaps only the first
half of an item. -/
theorem accepts_of_short {c : UInt8} (h : r.short (c :: w) = .ok s) :
    c ≠ hyphen ∧ r.Accepts s (hyphen :: c :: w) := by
  have hformat : ("-f" : Bytes) ∈ Slot.format.words := by decide
  have hverbose : ("-v" : Bytes) ∈ Switch.verbose.words := by decide
  induction w generalizing c r with
  | nil =>
    rcases short_eq_ok h with ⟨rfl, -, h⟩ | ⟨-, hne, -⟩ | ⟨rfl, t, hturn, ht⟩
    · exact ⟨by decide, accepts_of_await (spellsApart_of_mem_words hformat) h⟩
    · exact absurd rfl hne
    · obtain rfl : t = s := Except.ok.inj ht
      exact ⟨by decide, accepts_of_turnOn (spellsAlone_of_mem_words hverbose) hturn⟩
  | cons d w ih =>
    rcases short_eq_ok h with ⟨-, hnil, -⟩ | ⟨rfl, hne, h⟩ | ⟨rfl, t, hturn, ht⟩
    · cases hnil
    · exact ⟨by decide, accepts_of_attach (spellsAlone_format hne) h⟩
    · obtain ⟨hd, -, hpositional, hspells⟩ := ih ht
      refine ⟨by decide, settled_of_turnOn hturn, hpositional.trans (turnOn_keeps hturn).2, ?_⟩
      exact hspells.imp (And.imp_right (.clustered hd)) (And.imp_right (.clustered hd))

/-- **What an accepted word can be:** the two dashes, a word that stands alone, or one that
spells options to its end.  By cases on how the word begins, as it is read. -/
theorem word_eq_ok (hpositional : r.positionalOnly = false) (h : r.word w = .ok s) :
    (w = [hyphen, hyphen] ∧ s = { r with positionalOnly := true }) ∨
      (StandsAlone w ∧ r.plain w = .ok s) ∨ r.Accepts s w := by
  rcases word_cases w with rfl | ⟨name, hne, rfl⟩ | ⟨c, rest, hc, rfl⟩ | hw
  · rw [word_dashes hpositional] at h
    exact .inl ⟨rfl, (Except.ok.inj h).symm⟩
  · rw [word_long hpositional hne] at h
    exact .inr (.inr (accepts_of_long h))
  · rw [word_short hpositional hc] at h
    exact .inr (.inr (accepts_of_short h).2)
  · rw [word_of_standsAlone hpositional hw] at h
    exact .inr (.inl ⟨hw, h⟩)

/-- Behind `--` no value comes for an option that waits for one, so the line is refused at its
end. -/
theorem not_readsAll_of_waiting (hpending : r.pending = some (slot, none))
    (hpositional : r.positionalOnly = true) : ¬ r.ReadsAll words o := by
  have hsettle : r.settle = .error .invalidValue := by simp [settle, hpending]
  cases words with
  | nil => simp [ReadsAll, hsettle]
  | cons w words =>
    have hword : r.word w = r.positional w := if_pos hpositional
    cases hpaths : r.rootNamed <;> simp [ReadsAll, hword, positional, hsettle, hpaths]

/-- **What is accepted spells items,** behind the value that an option may wait for.  By
induction on the words, for a reading that is ready and one that waits at once. -/
theorem exists_spells_of_readsAll (hpositional : r.positionalOnly = false)
    (h : r.ReadsAll words o) :
    (r.IsReady → ∃ items, Spells items words) ∧
      ∀ slot, r.pending = some (slot, none) → ∃ v rest items, words = v :: rest ∧ StandsAlone v ∧
        Spells items rest := by
  induction words generalizing r with
  | nil =>
    refine ⟨fun _ => ⟨[], .nil⟩, fun slot hpending => ?_⟩
    simp [ReadsAll, settle, hpending] at h
  | cons w words ih =>
    obtain ⟨s, hword, hrest⟩ := h
    rcases word_eq_ok hpositional hword with ⟨rfl, rfl⟩ | ⟨hw, hplain⟩ | haccepts
    · refine ⟨fun _ => ⟨_, .behindDashes words⟩, fun slot hpending => ?_⟩
      have hwaits : { r with positionalOnly := true }.pending = some (slot, none) := hpending
      exact absurd hrest (not_readsAll_of_waiting hwaits rfl)
    · constructor
      · intro hr
        rw [plain_of_isReady hr] at hplain
        have hs := isReady_of_positional hr hplain
        obtain ⟨items, hitems⟩ := (ih hs.positionalOnly hrest).1 hs
        exact ⟨_, .root hw hitems⟩
      · intro slot hpending
        simp only [plain, hpending, Except.ok.injEq] at hplain
        have hs : s.IsReady := by
          rw [← hplain]
          exact ⟨by simp, hpositional⟩
        obtain ⟨items, hitems⟩ := (ih hs.positionalOnly hrest).1 hs
        exact ⟨w, words, items, rfl, hw, hitems⟩
    · obtain ⟨⟨t, hsettle⟩, hkeeps, hspells⟩ := haccepts
      have hs := hkeeps.trans hpositional
      constructor
      · intro hr
        rcases hspells with ⟨hpending, hw⟩ | ⟨⟨slot, hpending⟩, hw⟩
        · obtain ⟨items, hitems⟩ := (ih hs hrest).1 ⟨by simp [hpending], hs⟩
          exact hw items words hitems
        · obtain ⟨v, rest, items, rfl, hv, hitems⟩ := (ih hs hrest).2 slot hpending
          exact hw v items rest hv hitems
      · intro slot hpending
        simp [settle, hpending] at hsettle

end Reading

/-- **A command line that spells items is accepted exactly where they ask for something.** -/
theorem Spells.parse_eq_ok_iff (h : Spells items args) :
    parse args = .ok o ↔ Gives items o ∧ o.NonemptyPaths := by
  rw [parse_eq_ok_iff_readsAll, h.readsAll_iff Reading.isReady_empty]
  exact Reading.records_nil.getsAll_iff

/-- **A command line that is accepted spells items.**  By induction on its words, from what an
accepted word can be; so nothing but spellings is accepted. -/
theorem exists_spells_of_parse (h : parse args = .ok o) : ∃ items, Spells items args :=
  (Reading.exists_spells_of_readsAll rfl (parse_eq_ok_iff_readsAll.1 h)).1 Reading.isReady_empty

end CommandLine

end DocLint
