/-
# Options that are mentioned

SPEC_FULL.md §10.6: when `parse_for` answers with help or with the version.

The options that a command line mentions in front of `--` are found by looking at each word by
itself (`mentioned`), without reading it.  A value that stands alone mentions none, so on a
line that spells items they are those items, roots apart (`Spells.mentioned_eq`).

On any line, a command that prints its help or its version was asked to by an option that is
mentioned (`mem_mentioned_of_parse`).  Every other stop is a fault of the line
(`Stop.askedBy?`).

| the line | what comes of it |
| --- | --- |
| spells items that ask for something | is accepted, and they are what is asked for |
| spells items, one of them twice | is at fault |
| mentions an option twice | is not accepted, wherever in the line that is |
| spells nothing | is not accepted |
-/

import DocLint.Proofs.CommandLine.Recognition
import Mathlib.Data.List.TakeWhile

namespace DocLint

namespace CommandLine

/-- The options that a word of short options mentions, its hyphen left out. -/
def shortMentions : Bytes → List Meaning
  | [] => []
  | c :: w =>
    match Meaning.short? c with
    | none => []
    | some (.switch s) => .switch s :: shortMentions w
    | some m => [m]

/-- The options that a word mentions. -/
def mentions : Bytes → List Meaning
  | c :: d :: w =>
    if c ≠ hyphen then []
    else if d ≠ hyphen then shortMentions (d :: w)
    else (Meaning.long? (w.takeWhile (· ≠ equals))).toList
  | _ => []

/-- The options that a command line mentions in front of `--`. -/
def mentioned (args : List Bytes) : List Meaning :=
  (args.takeWhile (· ≠ [hyphen, hyphen])).flatMap mentions

/-- The option that asks for a stop; none does for a fault. -/
def Stop.askedBy? : Stop → Option Meaning
  | .help _ => some .help
  | .version => some .version
  | _ => none

variable {items : List Item} {words args : List Bytes} {o : Options} {w v name path : Bytes}
  {slot : Slot} {switch : Switch} {m : Meaning} {stop : Stop}

/-- What a command line mentions is what its words mention, word by word, up to `--`. -/
theorem mentioned_cons (hw : w ≠ [hyphen, hyphen]) :
    mentioned (w :: words) = mentions w ++ mentioned words := by
  simp [mentioned, hw]

/-! ### Words -/

theorem takeWhile_of_not_mem (hequals : equals ∉ name) : name.takeWhile (· ≠ equals) = name :=
  List.takeWhile_eq_self_iff.2 fun _ hc => decide_eq_true fun heq => hequals (heq ▸ hc)

/-- A name is what stands in front of the first `=`, whatever the value behind it holds. -/
theorem takeWhile_joined (hequals : equals ∉ name) (v : Bytes) :
    (name ++ equals :: v).takeWhile (· ≠ equals) = name := by
  rw [List.takeWhile_append, takeWhile_of_not_mem hequals, if_pos rfl]
  simp

/-- A word with two hyphens mentions the one option whose long name stands in front of `=`. -/
theorem mentions_long (name : Bytes) :
    mentions (hyphen :: hyphen :: name) =
      (Meaning.long? (name.takeWhile (· ≠ equals))).toList := by
  simp [mentions]

/-- A word with one hyphen mentions what its letters mention. -/
theorem mentions_short {c : UInt8} (hc : c ≠ hyphen) :
    mentions (hyphen :: c :: w) = shortMentions (c :: w) := by
  simp [mentions, hc]

/-- A word that names an option mentions it, also with a value joined to it, and mentions no
other: the value is not looked into. -/
theorem Names.mentions_eq (h : Names w m) :
    (w ≠ [hyphen, hyphen] ∧ mentions w = [m]) ∧
      ∀ v, w ++ equals :: v ≠ [hyphen, hyphen] ∧ mentions (w ++ equals :: v) = [m] := by
  cases h with
  | @long name _ hlong hne hequals =>
    refine ⟨⟨by simpa using hne, ?_⟩, fun v => ⟨by simp, ?_⟩⟩
    · rw [mentions_long, takeWhile_of_not_mem hequals, hlong]
      rfl
    · simp only [List.cons_append]
      rw [mentions_long, takeWhile_joined hequals, hlong]
      rfl
  | @short c _ hshort hne =>
    have hequals : Meaning.short? equals = none := rfl
    refine ⟨⟨by simpa using hne, ?_⟩, fun v => ⟨by simp, ?_⟩⟩
    · rw [mentions_short hne]
      cases m <;> simp [shortMentions, hshort]
    · have hwhole : mentions (hyphen :: c :: equals :: v) = [m] := by
        rw [mentions_short hne]
        cases m <;> simp [shortMentions, hshort, hequals]
      exact hwhole

/-- A word that cannot be an option mentions nothing. -/
theorem mentions_of_standsAlone (hw : StandsAlone w) : w ≠ [hyphen, hyphen] ∧ mentions w = [] := by
  rcases hw with rfl | hw
  · exact ⟨by decide, rfl⟩
  · constructor
    · rintro rfl
      exact hw rfl
    · unfold mentions
      split <;> simp_all

/-- The root has no name, so no word of an option can be meant for it. -/
theorem ne_root_of_mem_words (hw : w ∈ slot.words) : slot ≠ .root := by
  rintro rfl
  cases hw

/-- **What is mentioned are the items that are spelled,** roots apart.  So a line that mentions
an option twice can only spell items of which one is given twice. -/
theorem Spells.mentioned_eq (h : Spells items words) :
    mentioned words = (items.map Item.meaning).filter (· ≠ .slot .root) := by
  induction h with
  | nil => rfl
  | switch hw _ ih =>
    obtain ⟨⟨hne, hmentions⟩, -⟩ := (names_of_mem_switch_words hw).mentions_eq
    rw [mentioned_cons hne, hmentions, ih]
    simp [Item.meaning]
  | apart hw hv _ ih =>
    obtain ⟨⟨hne, hmentions⟩, -⟩ := (names_of_mem_slot_words hw).mentions_eq
    obtain ⟨hne', hmentions'⟩ := mentions_of_standsAlone hv
    rw [mentioned_cons hne, mentioned_cons hne', hmentions, hmentions', ih]
    simp [Item.meaning, ne_root_of_mem_words hw]
  | @joined _ _ v _ _ hw _ ih =>
    obtain ⟨hne, hmentions⟩ := (names_of_mem_slot_words hw).mentions_eq.2 v
    rw [mentioned_cons hne, hmentions, ih]
    simp [Item.meaning, ne_root_of_mem_words hw]
  | @glued v _ _ hv hequals _ ih =>
    have hmentions : mentions (hyphen :: Meaning.shortFormat :: v) = [.slot .format] := rfl
    have hdashes : hyphen :: Meaning.shortFormat :: v ≠ [hyphen, hyphen] := fun heq =>
      absurd (List.cons.inj (List.cons.inj heq).2).1 (by decide)
    rw [mentioned_cons hdashes, hmentions, ih]
    simp [Item.meaning]
  | @clustered c w _ _ hc _ ih =>
    have hmentions : mentions (hyphen :: Meaning.shortVerbose :: c :: w) =
        .switch .verbose :: mentions (hyphen :: c :: w) := by
      rw [mentions_short hc]
      rfl
    rw [mentioned_cons (by simp [hc])] at ih
    rw [mentioned_cons (by simp), hmentions, List.cons_append, ih]
    simp [Item.meaning]
  | root hpath _ ih =>
    obtain ⟨hne, hmentions⟩ := mentions_of_standsAlone hpath
    rw [mentioned_cons hne, hmentions, ih]
    simp [Item.meaning]
  | behindDashes paths => simp [mentioned, Item.meaning]

/-! ### Stops -/

namespace Reading

variable {r s : Reading}

theorem store_stops (h : r.store slot v = .error stop) : stop.askedBy? = none := by
  cases slot <;> simp only [store] at h <;> grind [Stop.askedBy?]

/-- Judging a pending value never ends in help or in the version: it is refused as a value or it
is taken. -/
theorem settle_stops (h : r.settle = .error stop) : stop.askedBy? = none := by
  rw [settle] at h
  split at h
  · cases h
  · cases h
    rfl
  · exact store_stops h

theorem attach_stops (h : r.attach slot v = .error stop) : stop.askedBy? = none := by
  cases hsettle : r.settle with
  | error stop' =>
    obtain rfl : stop' = stop := by simpa [attach, hsettle] using h
    exact settle_stops hsettle
  | ok s => exact store_stops (by simpa [attach, hsettle] using h)

theorem await_stops (h : r.await slot = .error stop) : stop.askedBy? = none := by
  cases hsettle : r.settle with
  | error stop' =>
    obtain rfl : stop' = stop := by simpa [await, hsettle] using h
    exact settle_stops hsettle
  | ok s => simp [await, hsettle] at h

theorem turnOn_stops (h : r.turnOn switch = .error stop) : stop.askedBy? = none := by
  cases hsettle : r.settle with
  | error stop' =>
    obtain rfl : stop' = stop := by simpa [turnOn, hsettle] using h
    exact settle_stops hsettle
  | ok s => cases switch <;> simp only [turnOn, hsettle] at h <;> grind [Stop.askedBy?]

theorem positional_stops (h : r.positional path = .error stop) : stop.askedBy? = none := by
  unfold positional at h
  split at h
  · cases h
    rfl
  · cases hsettle : r.settle with
    | error stop' =>
      obtain rfl : stop' = stop := by simpa [hsettle] using h
      exact settle_stops hsettle
    | ok s => simp [hsettle] at h

/-- A word that is no option is never taken for a request for help, whether it is a root or a
value. -/
theorem plain_stops (h : r.plain w = .error stop) : stop.askedBy? = none := by
  unfold plain at h
  split at h
  · cases h
  · exact positional_stops h

/-- Help and the version are given where they are asked for, unless a pending value is refused
first. -/
theorem halt_stops {asked : Stop} (h : r.halt asked = .error stop)
    (hasked : stop.askedBy? = some m) : asked.askedBy? = some m := by
  cases hsettle : r.settle with
  | error stop' =>
    obtain rfl : stop' = stop := by simpa [halt, hsettle] using h
    simp [settle_stops hsettle] at hasked
  | ok s =>
    obtain rfl : asked = stop := by simpa [halt, hsettle] using h
    exact hasked

/-- **Who is answered by help or by the version has asked for it,** here with a long name. -/
theorem long_stops (h : r.long name = .error stop) (hasked : stop.askedBy? = some m) :
    m ∈ mentions (hyphen :: hyphen :: name) := by
  cases hsplit : Text.splitFirst equals name with
  | none =>
    rw [mentions_long, takeWhile_of_not_mem (Text.splitFirst_eq_none_iff.1 hsplit), Option.mem_toList]
    cases hlong : Meaning.long? name with
    | none =>
      obtain rfl : Stop.unknownArgument = stop := by simpa [long, hsplit, hlong] using h
      cases hasked
    | some m' =>
      cases m' <;> simp only [long, hsplit, hlong] at h
      · simp [await_stops h] at hasked
      · simp [turnOn_stops h] at hasked
      · exact halt_stops h hasked
      · exact halt_stops h hasked
  | some parts =>
    obtain ⟨front, v⟩ := parts
    cases hlong : Meaning.long? front with
    | none =>
      obtain rfl : Stop.unknownArgument = stop := by simpa [long, hsplit, hlong] using h
      cases hasked
    | some m' =>
      cases m' <;> simp only [long, hsplit, hlong, Except.error.injEq] at h
      · simp [attach_stops h] at hasked
      all_goals
        subst h
        cases hasked

/-- Who is answered by help or by the version behind a cluster has asked for it with one of its
letters. -/
theorem short_stops (h : r.short w = .error stop) (hasked : stop.askedBy? = some m) :
    m ∈ shortMentions w := by
  induction w generalizing r with
  | nil => cases h
  | cons c w ih =>
    cases hshort : Meaning.short? c with
    | none =>
      obtain rfl : Stop.unknownArgument = stop := by simpa [short, hshort] using h
      cases hasked
    | some m' =>
      cases m' with
      | slot slot =>
        rw [short_slot hshort] at h
        split at h
        · simp [await_stops h] at hasked
        · simp [attach_stops h] at hasked
      | switch switch =>
        cases hturn : r.turnOn switch with
        | error stop' =>
          obtain rfl : stop' = stop := by simpa [short, hshort, hturn] using h
          simp [turnOn_stops hturn] at hasked
        | ok s =>
          have hrest : s.short w = .error stop := by simpa [short, hshort, hturn] using h
          simp [shortMentions, hshort, ih hrest]
      | help =>
        simp only [short, hshort] at h
        simpa [shortMentions, hshort, Stop.askedBy?, eq_comm] using halt_stops h hasked
      | version =>
        simp only [short, hshort] at h
        simpa [shortMentions, hshort, Stop.askedBy?, eq_comm] using halt_stops h hasked

/-- Who is answered by help or by the version has asked for it with a word in front of `--`. -/
theorem word_stops (hpositional : r.positionalOnly = false) (h : r.word w = .error stop)
    (hasked : stop.askedBy? = some m) : w ≠ [hyphen, hyphen] ∧ m ∈ mentions w := by
  rcases word_cases w with rfl | ⟨name, hne, rfl⟩ | ⟨c, rest, hc, rfl⟩ | hw
  · rw [word_dashes hpositional] at h
    cases h
  · rw [word_long hpositional hne] at h
    exact ⟨by simpa using hne, long_stops h hasked⟩
  · rw [word_short hpositional hc] at h
    rw [mentions_short hc]
    exact ⟨by simpa using fun heq => absurd heq hc, short_stops h hasked⟩
  · rw [word_of_standsAlone hpositional hw] at h
    simp [plain_stops h] at hasked

/-- The words are not all accepted, and what stops the reading is `stop`. -/
def StopsAt (r : Reading) : List Bytes → Stop → Prop
  | [], stop => r.settle = .error stop
  | w :: words, stop => r.word w = .error stop ∨ ∃ s, r.word w = .ok s ∧ StopsAt s words stop

/-- Reading stops at a word, or behind the last of them at a value that was pending. -/
theorem stopsAt_iff : r.StopsAt words stop ↔ words.foldlM word r = .error stop ∨
    ∃ s, words.foldlM word r = .ok s ∧ s.settle = .error stop := by
  induction words generalizing r with
  | nil => simp [StopsAt, pure, Except.pure]
  | cons w words ih =>
    rw [StopsAt, List.foldlM_cons]
    cases hword : r.word w with
    | error stop' => simp [bind, Except.bind]
    | ok s => simp [bind, Except.bind, ih]

/-- Behind `--` nothing is asked for, whatever the words look like. -/
theorem stopsAt_of_positionalOnly (hpositional : r.positionalOnly = true)
    (h : r.StopsAt words stop) : stop.askedBy? = none := by
  induction words generalizing r with
  | nil => exact settle_stops h
  | cons w words ih =>
    have hword : r.word w = r.positional w := if_pos hpositional
    rw [StopsAt, hword] at h
    rcases h with h | ⟨s, hs, hrest⟩
    · exact positional_stops h
    · exact ih ((positional_keeps hs).2.trans hpositional) hrest

/-- Only the word `--` makes the words behind it positional. -/
theorem word_keeps (hpositional : r.positionalOnly = false) (hw : w ≠ [hyphen, hyphen])
    (h : r.word w = .ok s) : s.positionalOnly = false := by
  rcases word_eq_ok hpositional h with ⟨hdashes, -⟩ | ⟨-, hplain⟩ | haccepts
  · exact absurd hdashes hw
  · unfold plain at hplain
    split at hplain
    · rw [← Except.ok.inj hplain]
      exact hpositional
    · exact (positional_keeps hplain).2.trans hpositional
  · exact haccepts.positionalOnly.trans hpositional

/-- **What a reading is stopped for is mentioned.**  By induction on the words; behind `--`
there is nothing to show, since no word there asks for anything. -/
theorem mem_mentioned_of_stopsAt (hpositional : r.positionalOnly = false)
    (h : r.StopsAt words stop) (hasked : stop.askedBy? = some m) : m ∈ mentioned words := by
  induction words generalizing r with
  | nil => simp [settle_stops h] at hasked
  | cons w words ih =>
    rcases h with h | ⟨s, hword, hrest⟩
    · obtain ⟨hne, hmem⟩ := word_stops hpositional h hasked
      rw [mentioned_cons hne]
      exact List.mem_append_left _ hmem
    · by_cases hw : w = [hyphen, hyphen]
      · rw [hw, word_dashes hpositional] at hword
        obtain rfl := Except.ok.inj hword
        simp [stopsAt_of_positionalOnly rfl hrest] at hasked
      · rw [mentioned_cons hw]
        exact List.mem_append_right _ (ih (word_keeps hpositional hw hword) hrest)

end Reading

/-- A command line is refused where reading its words stops, and for the same reason. -/
theorem parse_eq_error_iff : parse args = .error stop ↔ ({} : Reading).StopsAt args stop := by
  rw [Reading.stopsAt_iff, parse]
  cases hwords : args.foldlM Reading.word {} with
  | error stop' => simp [bind, Except.bind]
  | ok r => cases hsettle : r.settle <;> simp [bind, Except.bind, hsettle, pure, Except.pure]

/-- **A command prints its help or its version only where an option asks for it,** in front of
`--`. -/
theorem mem_mentioned_of_parse (h : parse args = .error stop) (hasked : stop.askedBy? = some m) :
    m ∈ mentioned args :=
  Reading.mem_mentioned_of_stopsAt rfl (parse_eq_error_iff.1 h) hasked

/-- A line that spells items and is not accepted is at fault: none of its words asks for help or
for the version. -/
theorem Spells.askedBy?_eq_none (h : Spells items args) (hstop : parse args = .error stop) :
    stop.askedBy? = none := by
  rw [Option.eq_none_iff_forall_ne_some]
  intro m hasked
  have hmem := mem_mentioned_of_parse hstop hasked
  rw [h.mentioned_eq] at hmem
  obtain ⟨item, -, hitem⟩ := List.mem_map.1 (List.mem_of_mem_filter hmem)
  cases item <;> subst hitem <;> cases stop <;> cases hasked

/-- **An option that is mentioned twice in front of `--` is never accepted,** wherever that is. -/
theorem nodup_mentioned_of_parse (h : parse args = .ok o) : (mentioned args).Nodup := by
  obtain ⟨items, hitems⟩ := exists_spells_of_parse h
  have honce : (items.map Item.meaning).Nodup := (hitems.parse_eq_ok_iff.1 h).1.once
  rw [hitems.mentioned_eq]
  exact honce.filter _

/-- A command line that does not parse is answered with a reason. -/
theorem exists_error_of_ne_ok (h : ∀ o, parse args ≠ .ok o) :
    ∃ stop, parse args = .error stop := by
  cases hparse : parse args with
  | error stop => exact ⟨stop, rfl⟩
  | ok o => exact absurd hparse (h o)

/-! ### All spellings -/

/-- **Every spelling of a command line means the same,** and nothing else is accepted.
Whatever is asked for can be spelled by its items in any order, in any of the spellings, as
long as no path is empty.  A line that spells items is at fault if it gives one of them twice,
a second root included.  No line is accepted that mentions an option twice in front of `--`,
wherever in it that is; it is at fault, unless it asks for help or for the version first. -/
theorem parse_spelled :
    (∀ args o, parse args = .ok o ↔ o.NonemptyPaths ∧ ∃ items, Gives items o ∧ Spells items args) ∧
    (∀ items args, Spells items args → ¬ Once items →
      ∃ stop, parse args = .error stop ∧ stop.askedBy? = none) ∧
    (∀ args, ¬ (mentioned args).Nodup →
      ∃ stop, parse args = .error stop ∧ ∀ m, stop.askedBy? = some m → m ∈ mentioned args) := by
  refine ⟨fun args o => ⟨fun h => ?_, ?_⟩, fun items args hspells honce => ?_,
    fun args hnodup => ?_⟩
  · obtain ⟨items, hitems⟩ := exists_spells_of_parse h
    obtain ⟨hgives, hpaths⟩ := hitems.parse_eq_ok_iff.1 h
    exact ⟨hpaths, items, hgives, hitems⟩
  · rintro ⟨hpaths, items, hgives, hspells⟩
    exact hspells.parse_eq_ok_iff.2 ⟨hgives, hpaths⟩
  · obtain ⟨stop, hstop⟩ := exists_error_of_ne_ok fun o h =>
      honce (hspells.parse_eq_ok_iff.1 h).1.once
    exact ⟨stop, hstop, hspells.askedBy?_eq_none hstop⟩
  · obtain ⟨stop, hstop⟩ := exists_error_of_ne_ok fun o h => hnodup (nodup_mentioned_of_parse h)
    exact ⟨stop, hstop, fun m => mem_mentioned_of_parse hstop⟩

/-- A switch clustered with a format, a root that looks like an option, a format given twice
in different spellings, a second root, and a switch that comes where a value should. -/
theorem parse_spelled_hyphenRoot :
    let o : Options := { root := some "-x", format := .json, config := some "c", verbose := true }
    let items : List Item :=
      [.switch .verbose, .value .format "json", .value .config "c", .value .root "-x"]
    let formats : List Item := [.value .format "json", .switch .verbose, .value .format "text"]
    let roots : List Item := [.value .root "-", .value .root "-v"]
    (o.NonemptyPaths ∧ Gives items o ∧ Spells items ["-vf", "json", "--config=c", "--", "-x"] ∧
      parse ["-vf", "json", "--config=c", "--", "-x"] = .ok o) ∧
    (Spells formats ["-fjson", "-v", "--format=text"] ∧ ¬ Once formats ∧
      ∃ stop, parse ["-fjson", "-v", "--format=text"] = .error stop ∧ stop.askedBy? = none) ∧
    (Spells roots ["-", "--", "-v"] ∧ ¬ Once roots ∧
      ∃ stop, parse ["-", "--", "-v"] = .error stop ∧ stop.askedBy? = none) ∧
    (¬ (mentioned ["--config", "-v", "--verbose"]).Nodup ∧
      ∃ stop, parse ["--config", "-v", "--verbose"] = .error stop ∧
        ∀ m, stop.askedBy? = some m → m ∈ mentioned ["--config", "-v", "--verbose"]) := by
  intro o items formats roots
  obtain ⟨hspelled, htwice, hmentioned⟩ := parse_spelled
  have hpaths : o.NonemptyPaths := ⟨by decide, by decide⟩
  have hgives : Gives items o := by
    constructor
    · decide
    · exact fun path => by simp [items, o, eq_comm]
    · exact fun path => by simp [items, o, eq_comm]
    · intro name hname
      obtain rfl : name = "json" := by simpa [items] using hname
      decide
    · exact fun hnone => absurd (hnone "json") (by decide)
    · decide
    · decide
  have hspells : Spells items ["-vf", "json", "--config=c", "--", "-x"] := by
    have hroot : Spells [.value .root "-x"] ["--", "-x"] := .behindDashes ["-x"]
    have hconfig : Spells [.value .config "c", .value .root "-x"] ["--config=c", "--", "-x"] :=
      .joined (by decide : ("--config" : Bytes) ∈ Slot.config.words) hroot
    have hformat : Spells [.value .format "json", .value .config "c", .value .root "-x"]
        ["-f", "json", "--config=c", "--", "-x"] := .apart (by decide) (by decide) hconfig
    exact .clustered (by decide) hformat
  have hformats : Spells formats ["-fjson", "-v", "--format=text"] := by
    have htext : Spells [.value .format "text"] ["--format=text"] :=
      .joined (by decide : ("--format" : Bytes) ∈ Slot.format.words) .nil
    exact .glued (by decide) (by decide) (.switch (by decide) htext)
  have hroots : Spells roots ["-", "--", "-v"] := .root (.inl rfl) (.behindDashes ["-v"])
  have hformats' : ¬ Once formats := by decide
  have hroots' : ¬ Once roots := by decide
  have hswitches : ¬ (mentioned ["--config", "-v", "--verbose"]).Nodup := by decide
  exact ⟨⟨hpaths, hgives, hspells, (hspelled _ _).2 ⟨hpaths, _, hgives, hspells⟩⟩,
    ⟨hformats, hformats', htwice _ _ hformats hformats'⟩,
    ⟨hroots, hroots', htwice _ _ hroots hroots'⟩, ⟨hswitches, hmentioned _ hswitches⟩⟩

end CommandLine

end DocLint
