/-
# Spellings of a command line

SPEC_FULL.md §10.6: how the arguments of a command can be written.

The same items can be spelled in many ways, in any order (`Spells`).

| item | spelled |
| --- | --- |
| a switch | by a word of its own; `-v` also in front of other short options |
| a format, a settings file | by a word with the value behind it, or joined to it by `=` |
| a format | also by `-f` with the value right behind it |
| a root | by itself |
| roots | by all that stands behind `--` |

A value that is a word of its own, and a root in front of `--`, must not look like an option
(`StandsAlone`).  A joined value and what stands behind `--` may look like anything.

Words are read as the items that they spell (`Spells.readsAll_iff`).
-/

import DocLint.Proofs.CommandLine.Items

namespace DocLint

namespace CommandLine

/-- The words that turn a switch on. -/
def Switch.words : Switch → List Bytes
  | .listRules => ["--list-rules"]
  | .verbose => ["--verbose", "-v"]

/-- The words that name an option which takes a value. -/
def Slot.words : Slot → List Bytes
  | .root => []
  | .format => ["--format", "-f"]
  | .config => ["--config"]

/-- The word is no option: it is a single hyphen, or does not begin with one. -/
def StandsAlone (w : Bytes) : Prop := w = [hyphen] ∨ w.head? ≠ some hyphen

instance (w : Bytes) : Decidable (StandsAlone w) := inferInstanceAs (Decidable (_ ∨ _))

/-- **A word is the two dashes, a long option, short options, or stands alone.**  Words are read
by these cases, and so the proofs about them go. -/
theorem word_cases (w : Bytes) :
    w = [hyphen, hyphen] ∨ (∃ name, name ≠ [] ∧ w = hyphen :: hyphen :: name) ∨
      (∃ c rest, c ≠ hyphen ∧ w = hyphen :: c :: rest) ∨ StandsAlone w := by
  rcases w with - | ⟨c, - | ⟨d, rest⟩⟩
  · exact .inr (.inr (.inr (.inr nofun)))
  · by_cases hc : c = hyphen
    · exact .inr (.inr (.inr (.inl (by rw [hc]))))
    · exact .inr (.inr (.inr (.inr (by simpa using hc))))
  · by_cases hc : c = hyphen
    · subst hc
      by_cases hd : d = hyphen
      · subst hd
        by_cases hrest : rest = []
        · exact .inl (by rw [hrest])
        · exact .inr (.inl ⟨rest, hrest, rfl⟩)
      · exact .inr (.inr (.inl ⟨d, rest, hd, rfl⟩))
    · exact .inr (.inr (.inr (.inr (by simpa using hc))))

/-- The words spell the items, in their order. -/
inductive Spells : List Item → List Bytes → Prop
  | nil : Spells [] []
  /-- A word of its own: `--verbose`. -/
  | switch {s w items words} (hw : w ∈ s.words) :
    Spells items words → Spells (.switch s :: items) (w :: words)
  /-- A word with a value behind it: `--format json`, `-f json`. -/
  | apart {slot w v items words} (hw : w ∈ slot.words) (hv : StandsAlone v) :
    Spells items words → Spells (.value slot v :: items) (w :: v :: words)
  /-- A word with a value joined to it: `--format=json`, `-f=json`. -/
  | joined {slot w v items words} (hw : w ∈ slot.words) :
    Spells items words → Spells (.value slot v :: items) ((w ++ equals :: v) :: words)
  /-- A value right behind its option: `-fjson`. -/
  | glued {v items words} (hv : v ≠ []) (hequals : v.head? ≠ some equals) :
    Spells items words →
      Spells (.value .format v :: items) ((hyphen :: Meaning.shortFormat :: v) :: words)
  /-- A switch in front of other short options: `-vf json`, `-vfjson`. -/
  | clustered {c w items words} (hc : c ≠ hyphen) :
    Spells items ((hyphen :: c :: w) :: words) →
    Spells (.switch .verbose :: items) ((hyphen :: Meaning.shortVerbose :: c :: w) :: words)
  | root {path items words} (hpath : StandsAlone path) :
    Spells items words → Spells (.value .root path :: items) (path :: words)
  /-- All that stands behind `--`. -/
  | behindDashes (paths : List Path) :
    Spells (paths.map (.value .root)) ([hyphen, hyphen] :: paths)

/-- The word names an option in full, by its long or its short form. -/
inductive Names : Bytes → Meaning → Prop
  | long {name m} (hlong : Meaning.long? name = some m) (hne : name ≠ []) (hequals : equals ∉ name) :
    Names (hyphen :: hyphen :: name) m
  | short {c m} (hshort : Meaning.short? c = some m) (hne : c ≠ hyphen) : Names [hyphen, c] m

variable {items : List Item} {words : List Bytes} {paths : List Path} {o : Options}
  {w v name path : Bytes} {slot : Slot} {switch : Switch}

/-- Each word of a switch is read as that switch, its long name as well as its letter. -/
theorem names_of_mem_switch_words (hw : w ∈ switch.words) : Names w (.switch switch) := by
  cases switch with
  | listRules =>
    obtain rfl := List.mem_singleton.1 hw
    exact .long (by decide) (by decide) (by decide)
  | verbose =>
    rcases List.mem_pair.1 hw with rfl | rfl
    · exact .long (by decide) (by decide) (by decide)
    · exact .short (by decide) (by decide)

/-- Each word of an option with a value is read as that option, its long name as well as its
letter. -/
theorem names_of_mem_slot_words (hw : w ∈ slot.words) : Names w (.slot slot) := by
  cases slot with
  | root => cases hw
  | format =>
    rcases List.mem_pair.1 hw with rfl | rfl
    · exact .long (by decide) (by decide) (by decide)
    · exact .short (by decide) (by decide)
  | config =>
    obtain rfl := List.mem_singleton.1 hw
    exact .long (by decide) (by decide) (by decide)

namespace Reading

variable {r s t : Reading}

/-- All words are accepted, and `o` has been read when they are. -/
def ReadsAll (r : Reading) : List Bytes → Options → Prop
  | [], o => ∃ s, r.settle = .ok s ∧ s.options = o
  | w :: words, o => ∃ s, r.word w = .ok s ∧ ReadsAll s words o

/-- Words are read one by one, and what is still pending behind the last of them is judged then.
-/
theorem readsAll_iff : r.ReadsAll words o ↔
    ∃ s t, words.foldlM word r = .ok s ∧ s.settle = .ok t ∧ t.options = o := by
  induction words generalizing r with
  | nil => simp [ReadsAll, pure, Except.pure]
  | cons w words ih =>
    rw [ReadsAll, List.foldlM_cons]
    cases hword : r.word w with
    | error stop => simp [bind, Except.bind]
    | ok s => simp [bind, Except.bind, ih]

/-- The next word is read for itself. -/
structure IsReady (r : Reading) : Prop where
  pending : ∀ slot, r.pending ≠ some (slot, none)
  positionalOnly : r.positionalOnly = false

theorem isReady_empty : ({} : Reading).IsReady := ⟨by simp, rfl⟩

/-- Behind an item the next word begins an item again.  So a reading is ready at each step of
the induction over the spelled items. -/
theorem isReady_of_give {item : Item} (hr : r.IsReady) (h : r.give item = .ok s) : s.IsReady := by
  obtain ⟨hpending, hpositional⟩ := give_keeps h
  exact ⟨by simp [hpending], hpositional.trans hr.positionalOnly⟩

theorem isReady_of_positional (hr : r.IsReady) (h : r.positional path = .ok s) : s.IsReady := by
  obtain ⟨hpending, hpositional⟩ := positional_keeps h
  exact ⟨hpending, hpositional.trans hr.positionalOnly⟩

/-- A word that is no option is positional unless some option waits for it. -/
theorem plain_of_isReady (hr : r.IsReady) : r.plain w = r.positional w := by
  unfold plain
  split
  · exact absurd ‹_› (hr.pending _)
  · rfl

/-! ### One word -/

/-- A word that does not begin with a hyphen, or is one, is never taken for an option. -/
theorem word_of_standsAlone (hpositional : r.positionalOnly = false) (hw : StandsAlone w) :
    r.word w = r.plain w := by
  unfold word
  rw [if_neg (by simp [hpositional])]
  split <;> simp_all [StandsAlone]

/-- The word `--` is read once; behind it every word is positional. -/
theorem word_dashes (hpositional : r.positionalOnly = false) :
    r.word [hyphen, hyphen] = .ok { r with positionalOnly := true } := by
  simp [word, hpositional]

/-- What begins with two hyphens and goes on is the long name of an option. -/
theorem word_long (hpositional : r.positionalOnly = false) (hname : name ≠ []) :
    r.word (hyphen :: hyphen :: name) = r.long name := by
  obtain ⟨c, name, rfl⟩ := List.exists_cons_of_ne_nil hname
  simp [word, hpositional]

/-- What begins with one hyphen and goes on with another character is a cluster of letters. -/
theorem word_short {c : UInt8} (hpositional : r.positionalOnly = false) (hc : c ≠ hyphen) :
    r.word (hyphen :: c :: w) = r.short (c :: w) := by
  simp [word, hpositional, hc]

/-- The letter of an option with a value ends its cluster: the rest of the word is the value, or
the next word is where nothing is left. -/
theorem short_slot {c : UInt8} (hshort : Meaning.short? c = some (.slot slot)) (w : Bytes) :
    r.short (c :: w) = if w = [] then r.await slot else r.attach slot (dropEquals w) := by
  simp only [short, hshort]

/-- The letter of a switch turns it on, and the cluster goes on behind it. -/
theorem short_switch_eq_ok_iff {c : UInt8} (hshort : Meaning.short? c = some (.switch switch)) :
    r.short (c :: w) = .ok t ↔ ∃ s, r.turnOn switch = .ok s ∧ s.short w = .ok t := by
  cases hturn : r.turnOn switch <;> simp [short, hshort, hturn]

/-- A switch is turned on by each of its words alike. -/
theorem word_of_mem_switch_words (hpositional : r.positionalOnly = false) (hw : w ∈ switch.words) :
    r.word w = r.turnOn switch := by
  cases names_of_mem_switch_words hw with
  | long hlong hne hequals =>
    rw [word_long hpositional hne, long, Text.splitFirst_eq_none_iff.2 hequals]
    simp [hlong]
  | short hshort hne =>
    rw [word_short hpositional hne]
    cases hturn : r.turnOn switch <;> simp [short, hshort, hturn]

theorem word_of_mem_slot_words (hpositional : r.positionalOnly = false) (hw : w ∈ slot.words) :
    r.word w = r.await slot := by
  cases names_of_mem_slot_words hw with
  | long hlong hne hequals =>
    rw [word_long hpositional hne, long, Text.splitFirst_eq_none_iff.2 hequals]
    simp [hlong]
  | short hshort hne => rw [word_short hpositional hne, short_slot hshort, if_pos rfl]

/-- A value may follow in the same word behind `=`, and then may be anything, even nothing. -/
theorem word_joined (hpositional : r.positionalOnly = false) (hw : w ∈ slot.words) (v : Bytes) :
    r.word (w ++ equals :: v) = r.attach slot v := by
  cases names_of_mem_slot_words hw with
  | @long name _ hlong hne hequals =>
    have hsplit := Text.splitFirst_eq_some_iff.2 ⟨(rfl : name ++ equals :: v = _), hequals⟩
    simp only [List.cons_append]
    rw [word_long hpositional (by simp), long, hsplit]
    simp [hlong]
  | @short c _ hshort hne =>
    have hword : r.word (hyphen :: c :: equals :: v) = r.short (c :: equals :: v) :=
      word_short hpositional hne
    exact hword.trans (short_slot hshort _)

/-- A value may follow the letter of an option at once, if it is not empty and does not begin
with `=`. -/
theorem word_glued (hpositional : r.positionalOnly = false) (hv : v ≠ [])
    (hequals : v.head? ≠ some equals) :
    r.word (hyphen :: Meaning.shortFormat :: v) = r.attach .format v := by
  have hdrop : dropEquals v = v := by
    unfold dropEquals
    split <;> simp_all
  rw [word_short hpositional (by decide), short_slot rfl, if_neg hv, hdrop]

/-- An option that can be named is not the root, so its value is attached as one word would
attach it. -/
theorem give_of_mem_words (hw : w ∈ slot.words) : r.give (.value slot v) = r.attach slot v := by
  cases slot with
  | root => cases hw
  | format | config => rfl

/-! ### What stands behind a word -/

/-- The step for a word that is an item by itself: what remains is read as the remaining items
are given. -/
theorem readsAll_cons_of_give {item : Item} (hr : r.IsReady) (hword : r.word w = r.give item)
    (ih : ∀ s : Reading, s.IsReady → (s.ReadsAll words o ↔ s.GetsAll items o)) :
    r.ReadsAll (w :: words) o ↔ r.GetsAll (item :: items) o := by
  rw [ReadsAll, GetsAll, hword]
  exact exists_congr fun s => and_congr_right fun hs => ih s (isReady_of_give hr hs)

/-- The step for a positional word, which stays pending until the word behind it is seen. -/
theorem readsAll_cons_of_positional (hword : r.word path = r.positional path)
    (ih : ∀ s, r.positional path = .ok s → (s.ReadsAll words o ↔ s.GetsAll items o)) :
    r.ReadsAll (path :: words) o ↔ r.GetsAll (.value .root path :: items) o := by
  rw [ReadsAll, GetsAll, hword]
  simp only [give_root_eq_ok_iff]
  constructor
  · rintro ⟨s, hs, hreads⟩
    obtain ⟨t, ht, hgets⟩ := getsAll_settle.1 ((ih s hs).1 hreads)
    exact ⟨t, ⟨s, hs, ht⟩, hgets⟩
  · rintro ⟨t, ⟨s, hs, ht⟩, hgets⟩
    exact ⟨s, hs, (ih s hs).2 (getsAll_settle.2 ⟨t, ht, hgets⟩)⟩

/-- The step for an option and its value in two words: nothing is judged between them. -/
theorem readsAll_cons_of_await (hr : r.IsReady) (hw : w ∈ slot.words) (hv : StandsAlone v)
    (ih : ∀ s : Reading, s.IsReady → (s.ReadsAll words o ↔ s.GetsAll items o)) :
    r.ReadsAll (w :: v :: words) o ↔ r.GetsAll (.value slot v :: items) o := by
  simp only [ReadsAll, GetsAll, word_of_mem_slot_words hr.positionalOnly hw, give_of_mem_words hw,
    await_eq_ok_iff, attach_eq_ok_iff]
  cases hsettle : r.settle with
  | error stop => simp
  | ok s =>
    obtain ⟨hpending, -, hpositional⟩ := settle_keeps hsettle
    let t : Reading := { s with pending := some (slot, some v) }
    have ht : t.IsReady := ⟨by simp [t], hpositional.trans hr.positionalOnly⟩
    have hplain : { s with pending := some (slot, none) }.word v = .ok t :=
      word_of_standsAlone (hpositional.trans hr.positionalOnly) hv
    have hstore : t.settle = s.store slot v := by
      obtain ⟨root, format, config, listRules, verbose, pending, rootNamed, positionalOnly⟩ := s
      obtain rfl : pending = none := hpending
      rfl
    have hgets : t.ReadsAll words o ↔ ∃ u, s.store slot v = .ok u ∧ u.GetsAll items o := by
      rw [ih t ht, getsAll_settle, hstore]
    simpa [hplain] using hgets

/-- Behind `--` every word is a root, whatever it looks like: the words read as the items that
give them, one by one. -/
theorem readsAll_of_positionalOnly (hpositional : r.positionalOnly = true) :
    r.ReadsAll paths o ↔ r.GetsAll (paths.map (.value .root)) o := by
  induction paths generalizing r with
  | nil => exact Iff.rfl
  | cons path paths ih =>
    have hword : r.word path = r.positional path := if_pos hpositional
    exact readsAll_cons_of_positional hword fun s hs =>
      ih ((positional_keeps hs).2.trans hpositional)

/-- A `v` in front of other short options is read before they are, as if it stood in a word of
its own. -/
theorem readsAll_clustered {c : UInt8} (hpositional : r.positionalOnly = false) (hc : c ≠ hyphen) :
    r.ReadsAll ((hyphen :: Meaning.shortVerbose :: c :: w) :: words) o ↔
      ∃ s, r.turnOn .verbose = .ok s ∧ s.ReadsAll ((hyphen :: c :: w) :: words) o := by
  have hverbose : Meaning.short? Meaning.shortVerbose = some (.switch .verbose) := rfl
  rw [ReadsAll, word_short hpositional (by decide)]
  simp only [short_switch_eq_ok_iff hverbose]
  constructor
  · rintro ⟨t, ⟨s, hturn, ht⟩, hrest⟩
    have hkeeps := (turnOn_keeps hturn).2.trans hpositional
    exact ⟨s, hturn, t, (word_short hkeeps hc).trans ht, hrest⟩
  · rintro ⟨s, hturn, t, ht, hrest⟩
    have hkeeps := (turnOn_keeps hturn).2.trans hpositional
    exact ⟨t, ⟨s, hturn, (word_short hkeeps hc).symm.trans ht⟩, hrest⟩

end Reading

open Reading in
/-- **Words are read as the items that they spell,** accepted or not.  By induction on the
spelling, with one case for each way to spell an item. -/
theorem Spells.readsAll_iff (h : Spells items words) {r : Reading} (hr : r.IsReady) :
    r.ReadsAll words o ↔ r.GetsAll items o := by
  induction h generalizing r with
  | nil => exact Iff.rfl
  | switch hw _ ih =>
    exact readsAll_cons_of_give hr (word_of_mem_switch_words hr.positionalOnly hw) fun s hs => ih hs
  | apart hw hv _ ih => exact readsAll_cons_of_await hr hw hv fun s hs => ih hs
  | joined hw _ ih =>
    refine readsAll_cons_of_give hr ?_ fun s hs => ih hs
    rw [word_joined hr.positionalOnly hw, give_of_mem_words hw]
  | glued hv hequals _ ih =>
    exact readsAll_cons_of_give hr (word_glued hr.positionalOnly hv hequals) fun s hs => ih hs
  | clustered hc _ ih =>
    rw [readsAll_clustered hr.positionalOnly hc, GetsAll]
    refine exists_congr fun s => and_congr_right fun hs => ih ?_
    have hgive : r.give (.switch .verbose) = .ok s := hs
    exact isReady_of_give hr hgive
  | root hpath _ ih =>
    refine readsAll_cons_of_positional ?_ fun s hs => ih (isReady_of_positional hr hs)
    rw [word_of_standsAlone hr.positionalOnly hpath, plain_of_isReady hr]
  | behindDashes paths =>
    rw [ReadsAll, word_dashes hr.positionalOnly, ← getsAll_positionalOnly true,
      ← readsAll_of_positionalOnly rfl]
    simp

/-- A command line is parsed by reading all its words from a reading that has not begun. -/
theorem parse_eq_ok_iff_readsAll {args : List Bytes} :
    parse args = .ok o ↔ ({} : Reading).ReadsAll args o := by
  rw [Reading.readsAll_iff, parse]
  cases hwords : args.foldlM Reading.word {} with
  | error stop => simp [bind, Except.bind]
  | ok r => cases hsettle : r.settle <;> simp [bind, Except.bind, hsettle, pure, Except.pure]

end CommandLine

end DocLint
