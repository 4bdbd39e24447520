/-
# What a command line gives

SPEC_FULL.md §10.6: what the arguments of a command come to.

A command line gives items, values and switches, in some order.  What it asks for is known
from them alone (`Gives`): each is given once at most, the order does not matter, and a
format that is not given is `text`.

| item | is accepted | sets |
| --- | --- | --- |
| a root or settings file | unless it is empty | the path |
| a format | if it names one | the format |
| a switch | always | that it is on |

Here items are read one at a time, each judged before the next is looked at (`Reading.give`).
A reading keeps a record of the items that it has accepted (`Reading.Records.step`), so all
items are accepted exactly where they ask for something (`Reading.Records.getsAll_iff`).

Words are read more lazily: a value may stay pending.  This makes no difference to what comes
of it, since what is pending is judged before the next item is (`Reading.give_eq_ok_iff`).
-/

import DocLint.CommandLine.Parse
import Mathlib.Data.List.Nodup

namespace DocLint

namespace CommandLine

/-- What is given on a command line. -/
inductive Item
  | value (slot : Slot) (v : Bytes)
  | switch (s : Switch)
deriving Repr, DecidableEq

/-- What an item is given for. -/
def Item.meaning : Item → Meaning
  | .value slot _ => .slot slot
  | .switch s => .switch s

/-- Nothing is given twice. -/
def Once (items : List Item) : Prop := (items.map Item.meaning).Nodup

instance (items : List Item) : Decidable (Once items) :=
  inferInstanceAs (Decidable (items.map Item.meaning).Nodup)

variable {items given : List Item} {item : Item} {path name v : Bytes}

theorem slot_mem_map_meaning {slot : Slot} :
    .slot slot ∈ items.map Item.meaning ↔ ∃ v, .value slot v ∈ items := by
  rw [List.mem_map]
  constructor
  · rintro ⟨item, hitem, hmeaning⟩
    cases item with
    | value slot' v =>
      obtain rfl := Meaning.slot.inj hmeaning
      exact ⟨v, hitem⟩
    | switch s => cases hmeaning
  · rintro ⟨v, hv⟩
    exact ⟨_, hv, rfl⟩

theorem switch_mem_map_meaning {s : Switch} :
    .switch s ∈ items.map Item.meaning ↔ .switch s ∈ items := by
  rw [List.mem_map]
  constructor
  · rintro ⟨item, hitem, hmeaning⟩
    cases item with
    | value slot v => cases hmeaning
    | switch s' =>
      obtain rfl := Meaning.switch.inj hmeaning
      exact hitem
  · exact fun hs => ⟨_, hs, rfl⟩

/-- Where nothing is given twice so far, one item more must be for something new. -/
theorem once_concat :
    Once (given ++ [item]) ↔ Once given ∧ item.meaning ∉ given.map Item.meaning := by
  rw [Once, List.map_append, List.map_singleton, ← List.concat_eq_append, List.nodup_concat]
  exact and_comm

/-- The items give all that `o` sets, each once, and nothing else.  The format may be left
out where it is `text`. -/
structure Gives (items : List Item) (o : Options) : Prop where
  once : Once items
  root : ∀ path, .value .root path ∈ items ↔ o.root = some path
  config : ∀ path, .value .config path ∈ items ↔ o.config = some path
  format : ∀ name, .value .format name ∈ items → Format.ofName? name = some o.format
  text : (∀ name, .value .format name ∉ items) → o.format = .text
  listRules : .switch .listRules ∈ items ↔ o.listRules = true
  verbose : .switch .verbose ∈ items ↔ o.verbose = true

/-- No path that `o` names is empty. -/
structure Options.NonemptyPaths (o : Options) : Prop where
  root : o.root ≠ some []
  config : o.config ≠ some []

variable {o o' : Options}

/-- **Items ask for one thing at most.**  Each part of what is asked for is read off the items
by itself, and the format is `text` where none of them names one. -/
theorem Gives.eq (h : Gives items o) (h' : Gives items o') : o = o' := by
  obtain ⟨root, format, config, listRules, verbose⟩ := o
  obtain ⟨root', format', config', listRules', verbose'⟩ := o'
  have hroot : root = root' := Option.ext fun path => (h.root path).symm.trans (h'.root path)
  have hconfig : config = config' :=
    Option.ext fun path => (h.config path).symm.trans (h'.config path)
  have hformat : format = format' := by
    by_cases hnone : ∀ name, .value .format name ∉ items
    · exact (h.text hnone).trans (h'.text hnone).symm
    · push Not at hnone
      obtain ⟨name, hname⟩ := hnone
      exact Option.some.inj ((h.format name hname).symm.trans (h'.format name hname))
  have hlistRules : listRules = listRules' :=
    Bool.eq_iff_iff.2 (h.listRules.symm.trans h'.listRules)
  have hverbose : verbose = verbose' := Bool.eq_iff_iff.2 (h.verbose.symm.trans h'.verbose)
  rw [hroot, hconfig, hformat, hlistRules, hverbose]

namespace Reading

variable {r s t : Reading} {slot : Slot} {switch : Switch}

/-! ### What is pending -/

@[simp]
theorem settle_of_pending (h : r.pending = none) : r.settle = .ok r := by
  simp [settle, h]

/-- Storing a value touches nothing but the slot: what is pending and how the next word is read
stay as they were. -/
theorem store_keeps (h : r.store slot v = .ok s) :
    s.pending = r.pending ∧ s.rootNamed = r.rootNamed ∧ s.positionalOnly = r.positionalOnly := by
  cases slot <;> simp only [store] at h <;> grind

/-- Nothing is pending behind what has been judged, and judging it has no say in how the next
word is read. -/
theorem settle_keeps (h : r.settle = .ok s) :
    s.pending = none ∧ s.rootNamed = r.rootNamed ∧ s.positionalOnly = r.positionalOnly := by
  rw [settle] at h
  split at h
  · cases h
    exact ⟨‹_›, rfl, rfl⟩
  · cases h
  · exact store_keeps h

/-- A value that stands in one word with its option is judged as soon as what was pending before
it has been. -/
theorem attach_eq_ok_iff : r.attach slot v = .ok t ↔
    ∃ s, r.settle = .ok s ∧ s.store slot v = .ok t := by
  cases hsettle : r.settle <;> simp [attach, hsettle]

/-- An option whose value is the next word leaves that slot pending, once what was pending
before it has been judged. -/
theorem await_eq_ok_iff : r.await slot = .ok t ↔
    ∃ s, r.settle = .ok s ∧ t = { s with pending := some (slot, none) } := by
  cases hsettle : r.settle <;> simp [await, hsettle, eq_comm]

/-- Behind a positional word no option waits for a value, and `--` is as far off as before. -/
theorem positional_keeps (h : r.positional path = .ok s) :
    (∀ slot, s.pending ≠ some (slot, none)) ∧ s.positionalOnly = r.positionalOnly := by
  unfold positional at h
  split at h
  · cases h
  · cases hsettle : r.settle with
    | error stop => simp [hsettle] at h
    | ok t =>
      simp only [hsettle, Except.ok.injEq] at h
      rw [← h]
      exact ⟨by simp, (settle_keeps hsettle).2.2⟩

/-- Behind a switch nothing is pending, and `--` is as far off as before. -/
theorem turnOn_keeps (h : r.turnOn switch = .ok s) :
    s.pending = none ∧ s.positionalOnly = r.positionalOnly := by
  cases hsettle : r.settle with
  | error stop => simp [turnOn, hsettle] at h
  | ok t =>
    obtain ⟨hpending, -, hpositional⟩ := settle_keeps hsettle
    rw [← hpending, ← hpositional]
    cases switch <;> simp only [turnOn, hsettle] at h <;> grind

/-- Behind an option with its value nothing is pending, and `--` is as far off as before. -/
theorem attach_keeps (h : r.attach slot v = .ok s) :
    s.pending = none ∧ s.positionalOnly = r.positionalOnly := by
  obtain ⟨t, hsettle, hstore⟩ := attach_eq_ok_iff.1 h
  obtain ⟨hpending, -, hpositional⟩ := settle_keeps hsettle
  obtain ⟨hpending', -, hpositional'⟩ := store_keeps hstore
  exact ⟨hpending'.trans hpending, hpositional'.trans hpositional⟩

/-! ### One item at a time -/

/-- Reads an item and judges it at once. -/
def give (r : Reading) : Item → Except Stop Reading
  | .value .root path =>
    match r.positional path with
    | .error stop => .error stop
    | .ok r => r.settle
  | .value slot v => r.attach slot v
  | .switch s => r.turnOn s

/-- A root is given by a positional word, which is judged at the end at the latest. -/
theorem give_root_eq_ok_iff :
    r.give (.value .root path) = .ok t ↔ ∃ s, r.positional path = .ok s ∧ s.settle = .ok t := by
  cases hpath : r.positional path <;> simp [give, hpath]

/-- **Giving an item leaves nothing pending.**  So items can be judged one by one, each where
the one before it left off. -/
theorem give_keeps (h : r.give item = .ok s) :
    s.pending = none ∧ s.positionalOnly = r.positionalOnly := by
  cases item with
  | value slot v =>
    cases slot with
    | root =>
      obtain ⟨t, hroot, hsettle⟩ := give_root_eq_ok_iff.1 h
      obtain ⟨hpending, -, hpositional⟩ := settle_keeps hsettle
      exact ⟨hpending, hpositional.trans (positional_keeps hroot).2⟩
    | format | config => exact attach_keeps h
  | switch t => exact turnOn_keeps h

/-- **What is pending is judged before an item is.**  So it makes no difference to what is
accepted in the end whether it was judged where it was read or only now. -/
theorem give_eq_ok_iff :
    r.give item = .ok t ↔ ∃ s, r.settle = .ok s ∧ s.give item = .ok t := by
  cases hsettle : r.settle with
  | error stop =>
    suffices r.give item ≠ .ok t by simpa
    cases item with
    | value slot v =>
      cases slot with
      | root =>
        cases hnamed : r.rootNamed <;> simp [give, positional, hnamed, hsettle]
      | format | config => simp [give, attach, hsettle]
    | switch s => simp [give, turnOn, hsettle]
  | ok s =>
    obtain ⟨hpending, hnamed, -⟩ := settle_keeps hsettle
    have hagain := settle_of_pending hpending
    suffices r.give item = s.give item by simp [this]
    cases item with
    | value slot v => cases slot <;> simp [give, positional, attach, hsettle, hagain, hnamed]
    | switch s => simp [give, turnOn, hsettle, hagain]

/-- All items are accepted, and `o` has been read when they are. -/
def GetsAll (r : Reading) : List Item → Options → Prop
  | [], o => ∃ s, r.settle = .ok s ∧ s.options = o
  | item :: items, o => ∃ s, r.give item = .ok s ∧ GetsAll s items o

/-- Items may be given before or after what is pending is judged: they are accepted or not all
the same. -/
theorem getsAll_settle :
    r.GetsAll items o ↔ ∃ s, r.settle = .ok s ∧ s.GetsAll items o := by
  cases items with
  | nil =>
    cases hsettle : r.settle with
    | error stop => simp [GetsAll, hsettle]
    | ok s => simp [GetsAll, hsettle, settle_of_pending (settle_keeps hsettle).1]
  | cons item items =>
    constructor
    · rintro ⟨t, hgive, hall⟩
      obtain ⟨s, hsettle, hgive'⟩ := give_eq_ok_iff.1 hgive
      exact ⟨s, hsettle, t, hgive', hall⟩
    · rintro ⟨s, hsettle, t, hgive, hall⟩
      exact ⟨t, give_eq_ok_iff.2 ⟨s, hsettle, hgive⟩, hall⟩

/-! ### Positional arguments only

Whether only positional arguments follow is nothing to the items. -/

theorem store_positionalOnly (b : Bool) : { r with positionalOnly := b }.store slot v =
    (r.store slot v).map fun s => { s with positionalOnly := b } := by
  cases slot <;> simp only [store] <;> (repeat' split) <;> simp_all [Except.map]

theorem settle_positionalOnly (b : Bool) : { r with positionalOnly := b }.settle =
    r.settle.map fun s => { s with positionalOnly := b } := by
  simp only [settle]
  split
  · rfl
  · rfl
  · exact store_positionalOnly (r := { r with pending := none }) b

/-- Whether `--` has been read has no say in whether an item is accepted. -/
theorem give_positionalOnly (b : Bool) : { r with positionalOnly := b }.give item =
    (r.give item).map fun s => { s with positionalOnly := b } := by
  have hsettle := settle_positionalOnly (r := r) b
  cases item with
  | value slot v =>
    cases slot with
    | root =>
      simp only [give, positional, hsettle]
      cases r.rootNamed with
      | true => rfl
      | false =>
        cases r.settle with
        | error stop => rfl
        | ok s =>
          exact settle_positionalOnly
            (r := { s with pending := some (.root, some v), rootNamed := true }) b
    | format | config =>
      simp only [give, attach, hsettle]
      cases r.settle with
      | error stop => rfl
      | ok s => exact store_positionalOnly b
  | switch t =>
    simp only [give, turnOn, hsettle]
    cases r.settle with
    | error stop => rfl
    | ok s => cases t <;> simp only [Except.map] <;> split <;> rfl

/-- **`--` changes how words are read, not what items come to.**  So the roots behind it are
items like any other. -/
theorem getsAll_positionalOnly (b : Bool) :
    { r with positionalOnly := b }.GetsAll items o ↔ r.GetsAll items o := by
  induction items generalizing r with
  | nil =>
    rw [GetsAll, GetsAll, settle_positionalOnly]
    cases r.settle with
    | error stop => simp [Except.map]
    | ok s => simp [Except.map, options]
  | cons item items ih =>
    rw [GetsAll, GetsAll, give_positionalOnly]
    cases r.give item with
    | error stop => simp [Except.map]
    | ok s => simpa [Except.map] using ih

/-! ### What has been read so far -/

/-- Something has been accepted under that meaning. -/
def has (r : Reading) : Meaning → Bool
  | .slot .root => r.root.isSome
  | .slot .format => r.format.isSome
  | .slot .config => r.config.isSome
  | .switch .listRules => r.listRules
  | .switch .verbose => r.verbose
  | .help | .version => false

/-- The reading keeps what the items give, and nothing else. -/
structure Records (items : List Item) (r : Reading) : Prop where
  pending : r.pending = none
  rootNamed : r.rootNamed = r.root.isSome
  once : Once items
  root : ∀ path, .value .root path ∈ items ↔ r.root = some path
  config : ∀ path, .value .config path ∈ items ↔ r.config = some path
  format : ∀ name, .value .format name ∈ items → ∃ format, Format.ofName? name = some format ∧
    r.format = some format
  text : (∀ name, .value .format name ∉ items) → r.format = none
  listRules : .switch .listRules ∈ items ↔ r.listRules = true
  verbose : .switch .verbose ∈ items ↔ r.verbose = true
  root_ne : r.root ≠ some []
  config_ne : r.config ≠ some []

theorem records_nil : Records [] {} := by
  constructor <;> simp [Once]

/-- What a record says has been set is what the items in it ask for. -/
theorem Records.gives (h : Records items r) : Gives items r.options where
  once := h.once
  root := h.root
  config := h.config
  format name hname := by
    obtain ⟨format, hformat, hr⟩ := h.format name hname
    simp [options, hformat, hr]
  text hnone := by simp [options, h.text hnone]
  listRules := h.listRules
  verbose := h.verbose

namespace Records

/-- A root is accepted exactly where none is on record and the path is not empty; a second one
is refused. -/
theorem give_root_iff (h : Records given r) : r.give (.value .root path) = .ok s ↔
    r.root = none ∧ path ≠ [] ∧ s = { r with root := some path, rootNamed := true } := by
  simp only [give, positional, settle_of_pending h.pending, h.rootNamed]
  cases r.root with
  | some path' => simp
  | none =>
    have hpending := h.pending
    by_cases hpath : path = [] <;> simp [settle, store, hpath, hpending, eq_comm]

/-- A format is accepted exactly where none is on record and the name is that of a format. -/
theorem give_format_iff (h : Records given r) : r.give (.value .format name) = .ok s ↔
    r.format = none ∧ ∃ format, Format.ofName? name = some format ∧
      s = { r with format := some format } := by
  simp only [give, attach, settle_of_pending h.pending, store]
  cases r.format with
  | some format => simp
  | none => cases Format.ofName? name <;> simp [eq_comm]

/-- A settings file is accepted exactly where none is on record and the path is not empty. -/
theorem give_config_iff (h : Records given r) : r.give (.value .config path) = .ok s ↔
    r.config = none ∧ path ≠ [] ∧ s = { r with config := some path } := by
  simp only [give, attach, settle_of_pending h.pending, store]
  cases r.config with
  | some path' => simp
  | none => by_cases hpath : path = [] <;> simp [hpath, eq_comm]

/-- A switch is accepted exactly where it is not on record yet; a second one is refused. -/
theorem give_listRules_iff (h : Records given r) : r.give (.switch .listRules) = .ok s ↔
    r.listRules = false ∧ s = { r with listRules := true } := by
  simp only [give, turnOn, settle_of_pending h.pending]
  cases r.listRules <;> simp [eq_comm]

theorem give_verbose_iff (h : Records given r) : r.give (.switch .verbose) = .ok s ↔
    r.verbose = false ∧ s = { r with verbose := true } := by
  simp only [give, turnOn, settle_of_pending h.pending]
  cases r.verbose <;> simp [eq_comm]

/-- Under its meaning an item is recorded, and found again: what is on record tells what has
been given. -/
theorem has_meaning_iff (h : Records given r) :
    r.has item.meaning = true ↔ item.meaning ∈ given.map Item.meaning := by
  cases item with
  | value slot v =>
    rw [Item.meaning, slot_mem_map_meaning]
    cases slot with
    | root => simp [has, h.root, Option.isSome_iff_exists]
    | format =>
      constructor
      · intro hsome
        by_contra hnone
        push Not at hnone
        simp [has, h.text hnone] at hsome
      · rintro ⟨name, hname⟩
        obtain ⟨format, -, hformat⟩ := h.format name hname
        simp [has, hformat]
    | config => simp [has, h.config, Option.isSome_iff_exists]
  | switch s =>
    rw [Item.meaning, switch_mem_map_meaning]
    cases s with
    | listRules => exact h.listRules.symm
    | verbose => exact h.verbose.symm

/-- **An item is new exactly where the reading has nothing on record for it.**  So what a
reading refuses as given twice is what the items give twice. -/
theorem once_concat_iff (h : Records given r) :
    Once (given ++ [item]) ↔ r.has item.meaning = false := by
  rw [once_concat, ← h.has_meaning_iff, Bool.not_eq_true]
  exact and_iff_right h.once

/-- **An item that is accepted is recorded,** and nothing else is.  This is the step of the
invariant that a reading keeps over a whole command line. -/
theorem step (h : Records given r) (hgive : r.give item = .ok s) : Records (given ++ [item]) s := by
  have honce : Once (given ++ [item]) ↔ r.has item.meaning = false := h.once_concat_iff
  obtain ⟨hpending, hnamed, -, hroot, hconfig, hformat, htext, hlistRules, hverbose, hroot',
    hconfig'⟩ := id h
  cases item with
  | value slot v =>
    cases slot with
    | root =>
      obtain ⟨hnone, hne, rfl⟩ := h.give_root_iff.1 hgive
      constructor <;> simp_all [has, Item.meaning]
      exact fun path => eq_comm
    | format =>
      obtain ⟨hnone, format, hname, rfl⟩ := h.give_format_iff.1 hgive
      constructor <;> simp_all [has, Item.meaning]
    | config =>
      obtain ⟨hnone, hne, rfl⟩ := h.give_config_iff.1 hgive
      constructor <;> simp_all [has, Item.meaning]
      exact fun path => eq_comm
  | switch t =>
    cases t with
    | listRules =>
      obtain ⟨hnone, rfl⟩ := h.give_listRules_iff.1 hgive
      constructor <;> simp_all [has, Item.meaning]
    | verbose =>
      obtain ⟨hnone, rfl⟩ := h.give_verbose_iff.1 hgive
      constructor <;> simp_all [has, Item.meaning]

/-- **What has not been given yet is accepted,** if there is something to it: the items that
stand before it are on record, and it is for something else. -/
theorem exists_give (h : Records given r) (hgives : Gives (given ++ item :: items) o)
    (hpaths : o.NonemptyPaths) : ∃ s, r.give item = .ok s := by
  have honce : Once (given ++ [item]) := by
    have hall := hgives.once
    rw [List.append_cons, Once, List.map_append] at hall
    exact hall.of_append_left
  have hnone := h.once_concat_iff.1 honce
  have hmem : item ∈ given ++ item :: items := List.mem_append_right _ List.mem_cons_self
  cases item with
  | value slot v =>
    cases slot with
    | root =>
      have hfree : r.root = none := by simpa [has, Item.meaning] using hnone
      have hne : v ≠ [] := by
        rintro rfl
        exact hpaths.root ((hgives.root []).1 hmem)
      exact ⟨_, h.give_root_iff.2 ⟨hfree, hne, rfl⟩⟩
    | format =>
      have hfree : r.format = none := by simpa [has, Item.meaning] using hnone
      exact ⟨_, h.give_format_iff.2 ⟨hfree, _, hgives.format v hmem, rfl⟩⟩
    | config =>
      have hfree : r.config = none := by simpa [has, Item.meaning] using hnone
      have hne : v ≠ [] := by
        rintro rfl
        exact hpaths.config ((hgives.config []).1 hmem)
      exact ⟨_, h.give_config_iff.2 ⟨hfree, hne, rfl⟩⟩
  | switch t =>
    cases t with
    | listRules => exact ⟨_, h.give_listRules_iff.2 ⟨hnone, rfl⟩⟩
    | verbose => exact ⟨_, h.give_verbose_iff.2 ⟨hnone, rfl⟩⟩

end Records

/-- **All items are accepted exactly where they ask for something,** and that has been read
when they are. -/
theorem Records.getsAll_iff (h : Records given r) :
    r.GetsAll items o ↔ Gives (given ++ items) o ∧ o.NonemptyPaths := by
  induction items generalizing given r with
  | nil =>
    rw [GetsAll, settle_of_pending h.pending, List.append_nil]
    constructor
    · rintro ⟨s, hs, rfl⟩
      obtain rfl := Except.ok.inj hs
      exact ⟨h.gives, h.root_ne, h.config_ne⟩
    · exact fun hgives => ⟨r, rfl, h.gives.eq hgives.1⟩
  | cons item items ih =>
    rw [GetsAll]
    constructor
    · rintro ⟨s, hs, hall⟩
      simpa using (ih (h.step hs)).1 hall
    · rintro ⟨hgives, hpaths⟩
      obtain ⟨s, hs⟩ := h.exists_give hgives hpaths
      exact ⟨s, hs, (ih (h.step hs)).2 ⟨by simpa using hgives, hpaths⟩⟩

end Reading

end CommandLine

end DocLint
