/-
# The grammar of JSON

Which values a text spells, by the grammar of JSON and without regard to what writes or
reads it.  `Reads t v r` says that `t` begins with a spelling of `v` and goes on with `r`.

| value | spelling |
| --- | --- |
| `null`, `true`, `false` | the word |
| number | decimal digits, of which the first is `0` only where it is the last |
| string | characters between quotes (`ReadsChar`) |
| array, object | items or members between brackets, with commas between them |

Blanks may stand around every value, key, comma, colon and bracket.  A character of a string
is spelled by itself, unless it is a control character, a quote or a backslash; by a letter
behind a backslash (`escapes`); or by its UTF-16 units in hexadecimal digits, one unit or two.

**A text spells one value at most** (`Spells.unique`), though a value has many spellings.
Numbers are natural here, as in `Json`.  They are the one place where a spelling does not
show its own end, so what follows must not go on with a digit (`Ends`).
-/

import DocLint.Json.Basic
import DocLint.Proofs.Text.Trim

namespace DocLint

namespace Json

open Text

/-- A blank between the tokens of a document. -/
def isSpace (c : Char) : Bool := c == ' ' || c == '\t' || c == '\n' || c == '\r'

/-- `t` is `r` with blanks in front. -/
def Spaced (t r : Text) : Prop := ∃ blanks : Text, t = blanks ++ r ∧ ∀ c ∈ blanks, isSpace c

/-! ### Strings and numbers -/

/-- The letters that stand for a character behind a backslash. -/
def escapes : List (Char × Char) :=
  [('"', '"'), ('\\', '\\'), ('/', '/'), ('b', Char.ofNat 0x8), ('f', Char.ofNat 0xC), ('n', '\n'),
    ('r', '\r'), ('t', '\t')]

/-- What a hexadecimal digit of either case is worth. -/
def hexValue? (c : Char) : Option Nat :=
  if '0' ≤ c ∧ c ≤ '9' then some (c.toNat - '0'.toNat)
  else if 'a' ≤ c ∧ c ≤ 'f' then some (c.toNat - 'a'.toNat + 10)
  else if 'A' ≤ c ∧ c ≤ 'F' then some (c.toNat - 'A'.toNat + 10)
  else none

/-- The UTF-16 unit that four hexadecimal digits spell. -/
def unit? (a b c d : Char) : Option Nat := do
  return (((← hexValue? a) * 16 + (← hexValue? b)) * 16 + (← hexValue? c)) * 16 + (← hexValue? d)

/-- `t` begins with a spelling of the character `c` within a string, and goes on with
`r`. -/
inductive ReadsChar : Text → Char → Text → Prop
  | itself {c : Char} {r : Text} (hcontrol : 0x20 ≤ c.toNat) (hquote : c ≠ '"')
      (hbackslash : c ≠ '\\') : ReadsChar (c :: r) c r
  | letter {e c : Char} {r : Text} (h : (e, c) ∈ escapes) : ReadsChar ('\\' :: e :: r) c r
  | unit {a b c d : Char} {n : Nat} {r : Text} (h : unit? a b c d = some n)
      (hn : n < 0xD800 ∨ 0xE000 ≤ n) : ReadsChar ('\\' :: 'u' :: a :: b :: c :: d :: r) (Char.ofNat n) r
  | units {a b c d a' b' c' d' : Char} {high low : Nat} {r : Text}
      (h : unit? a b c d = some high) (hhigh : 0xD800 ≤ high ∧ high < 0xDC00)
      (h' : unit? a' b' c' d' = some low) (hlow : 0xDC00 ≤ low ∧ low < 0xE000) :
      ReadsChar
        ('\\' :: 'u' :: a :: b :: c :: d :: '\\' :: 'u' :: a' :: b' :: c' :: d' :: r)
        (Char.ofNat (0x10000 + (high - 0xD800) * 0x400 + (low - 0xDC00))) r

/-- `t` begins with a spelling of the characters of `s` and the quote behind them. -/
inductive ReadsText : Text → Text → Text → Prop
  | close {r : Text} : ReadsText ('"' :: r) [] r
  | char {t u r s : Text} {c : Char} (h : ReadsChar t c u) (hs : ReadsText u s r) :
      ReadsText t (c :: s) r

/-- `t` begins with decimal digits for `n`, none of them a leading zero. -/
def ReadsNumber (t : Text) (n : Nat) (r : Text) : Prop :=
  ∃ digits : Text, t = digits ++ r ∧ digits ≠ [] ∧ (∀ c ∈ digits, c.isDigit) ∧
    (digits.head? = some '0' → digits = ['0']) ∧ n = Nat.ofDigitChars 10 digits 0

/-! ### Values -/

mutual

/-- `t` begins with a spelling of `v` and goes on with `r`. -/
inductive Reads : Text → Json → Text → Prop
  | null {r : Text} : Reads ('n' :: 'u' :: 'l' :: 'l' :: r) .null r
  | true {r : Text} : Reads ('t' :: 'r' :: 'u' :: 'e' :: r) (.bool true) r
  | false {r : Text} : Reads ('f' :: 'a' :: 'l' :: 's' :: 'e' :: r) (.bool false) r
  | number {t r : Text} {n : Nat} (h : ReadsNumber t n r) : Reads t (.number n) r
  | string {t s r : Text} (h : ReadsText t s r) : Reads ('"' :: t) (.string s) r
  | array {t r : Text} {items : List Json} (h : ReadsItems t items r) :
      Reads ('[' :: t) (.array items) r
  | object {t r : Text} {members : List (Text × Json)} (h : ReadsMembers t members r) :
      Reads ('{' :: t) (.object members) r

/-- `t` begins with blanks and a value. -/
inductive ReadsItem : Text → Json → Text → Prop
  | intro {t u r : Text} {v : Json} (hspace : Spaced t u) (h : Reads u v r) : ReadsItem t v r

/-- `t` begins with items and the bracket behind them. -/
inductive ReadsItems : Text → List Json → Text → Prop
  | none {t r : Text} (h : Spaced t (']' :: r)) : ReadsItems t [] r
  | last {t u r : Text} {v : Json} (h : ReadsItem t v u) (hclose : Spaced u (']' :: r)) :
      ReadsItems t [v] r
  | more {t u w r : Text} {v v' : Json} {items : List Json} (h : ReadsItem t v u)
      (hcomma : Spaced u (',' :: w)) (hs : ReadsItems w (v' :: items) r) :
      ReadsItems t (v :: v' :: items) r

/-- `t` begins with a key, a colon and a value. -/
inductive ReadsMember : Text → Text × Json → Text → Prop
  | intro {t u w x r key : Text} {v : Json} (hquote : Spaced t ('"' :: u))
      (hkey : ReadsText u key w) (hcolon : Spaced w (':' :: x)) (h : ReadsItem x v r) :
      ReadsMember t (key, v) r

/-- `t` begins with members and the brace behind them. -/
inductive ReadsMembers : Text → List (Text × Json) → Text → Prop
  | none {t r : Text} (h : Spaced t ('}' :: r)) : ReadsMembers t [] r
  | last {t u r : Text} {m : Text × Json} (h : ReadsMember t m u) (hclose : Spaced u ('}' :: r)) :
      ReadsMembers t [m] r
  | more {t u w r : Text} {m m' : Text × Json} {members : List (Text × Json)} (h : ReadsMember t m u)
      (hcomma : Spaced u (',' :: w)) (hs : ReadsMembers w (m' :: members) r) :
      ReadsMembers t (m :: m' :: members) r

end

/-- The document `t` spells `v`: one value, with blanks around it. -/
def Spells (t : Text) (v : Json) : Prop := ∃ r, ReadsItem t v r ∧ Spaced r []

/-! ### Blanks end where something else begins -/

/-- What begins with no blank is all that is left behind the blanks, so where blanks end is
settled. -/
theorem Spaced.eq_dropWhile {t r : Text} (h : Spaced t r)
    (hr : ∀ c, r.head? = some c → isSpace c = false) : r = t.dropWhile isSpace := by
  obtain ⟨blanks, rfl, hblanks⟩ := h
  exact (dropWhile_append_bare hblanks hr).symm

/-- A token that is no blank is reached in one way: two readings that skip blanks come to the
same character and the same rest. -/
theorem Spaced.token_unique {t r s : Text} {c d : Char} (h : Spaced t (c :: r))
    (hc : isSpace c = false) (h' : Spaced t (d :: s)) (hd : isSpace d = false) : c = d ∧ r = s := by
  have hr : c :: r = t.dropWhile isSpace := h.eq_dropWhile fun e he => Option.some.inj he ▸ hc
  have hs : d :: s = t.dropWhile isSpace := h'.eq_dropWhile fun e he => Option.some.inj he ▸ hd
  exact List.cons.inj (hr.trans hs.symm)

/-- `r` does not go on with a digit. -/
def Ends (r : Text) : Prop := ∀ c, r.head? = some c → c.isDigit = false

theorem ends_cons {c : Char} (h : c.isDigit = false) (r : Text) : Ends (c :: r) :=
  fun _ hd => Option.some.inj hd ▸ h

/-- No blank is a digit, so a number ends in front of blanks too, and what is behind the blanks
may be anything. -/
theorem Spaced.ends {t r : Text} (h : Spaced t r) (hr : Ends r) : Ends t := by
  obtain ⟨blanks, rfl, hblanks⟩ := h
  cases blanks with
  | nil => exact hr
  | cons c blanks =>
    refine ends_cons ?_ _
    have hc : isSpace c := hblanks c List.mem_cons_self
    simp only [isSpace, Bool.or_eq_true, beq_iff_eq] at hc
    rcases hc with ((rfl | rfl) | rfl) | rfl <;> decide

/-! ### One reading -/

/-- A letter behind a backslash stands for one character, so an escape that has a letter is read
in one way. -/
theorem escapes_unique : ∀ p ∈ escapes, ∀ q ∈ escapes, p.1 = q.1 → p.2 = q.2 := by decide

/-- What a character of a string reads as, and where it ends, is settled by the text. -/
theorem ReadsChar.unique {t r s : Text} {c d : Char} (h : ReadsChar t c r) (h' : ReadsChar t d s) :
    c = d ∧ r = s := by
  cases h with
  | itself hcontrol hquote hbackslash =>
    cases h' with
    | itself => exact ⟨rfl, rfl⟩
    | letter => exact absurd rfl hbackslash
    | unit => exact absurd rfl hbackslash
    | units => exact absurd rfl hbackslash
  | letter h =>
    cases h' with
    | itself _ _ hbackslash => exact absurd rfl hbackslash
    | letter h' => exact ⟨escapes_unique _ h _ h' rfl, rfl⟩
    | unit => simp [escapes] at h
    | units => simp [escapes] at h
  | unit h hn =>
    cases h' with
    | itself _ _ hbackslash => exact absurd rfl hbackslash
    | letter h' => simp [escapes] at h'
    | unit h' => exact ⟨by rw [Option.some.inj (h.symm.trans h')], rfl⟩
    | units h' hhigh =>
      obtain rfl := Option.some.inj (h.symm.trans h')
      omega
  | units h hhigh h₂ =>
    cases h' with
    | itself _ _ hbackslash => exact absurd rfl hbackslash
    | letter h' => simp [escapes] at h'
    | unit h' hn =>
      obtain rfl := Option.some.inj (h.symm.trans h')
      omega
    | units h' _ h₂' =>
      obtain rfl := Option.some.inj (h.symm.trans h')
      exact ⟨by rw [Option.some.inj (h₂.symm.trans h₂')], rfl⟩

/-- A quote closes a string and is no character of it, so a string does not go on behind one. -/
theorem not_readsChar_quote {c : Char} {t u : Text} : ¬ ReadsChar ('"' :: t) c u := by
  intro h
  cases h with
  | itself _ hquote => exact hquote rfl

/-- A string ends at the first quote that is not escaped, so it reads in one way.  By induction
on the reading. -/
theorem ReadsText.unique {t u r s : Text} {v : Text} (h : ReadsText t u r) (h' : ReadsText t v s) :
    u = v ∧ r = s := by
  induction h generalizing v with
  | close =>
    cases h' with
    | close => exact ⟨rfl, rfl⟩
    | char h' => exact absurd h' not_readsChar_quote
  | char h _ ih =>
    cases h' with
    | close => exact absurd h not_readsChar_quote
    | char h' hs' =>
      obtain ⟨rfl, rfl⟩ := h.unique h'
      obtain ⟨rfl, rfl⟩ := ih hs'
      exact ⟨rfl, rfl⟩

/-- The digits of a number are all the digits there are, and a number is known by them, since
none has a zero in front. -/
theorem ReadsNumber.unique {t r s : Text} {n m : Nat} (h : ReadsNumber t n r) (hr : Ends r)
    (h' : ReadsNumber t m s) (hs : Ends s) : n = m ∧ r = s := by
  obtain ⟨digits, rfl, -, hdigits, -, rfl⟩ := h
  obtain ⟨digits', heq, -, hdigits', -, rfl⟩ := h'
  have hrest : (digits ++ r).dropWhile Char.isDigit = r := dropWhile_append_bare hdigits hr
  have hrest' : (digits' ++ s).dropWhile Char.isDigit = s := dropWhile_append_bare hdigits' hs
  obtain rfl : r = s := by rw [← hrest, heq, hrest']
  obtain rfl := List.append_cancel_right heq
  exact ⟨rfl, rfl⟩

/-- A number begins with a digit, which tells it from every other value. -/
theorem ReadsNumber.isDigit {c : Char} {t r : Text} {n : Nat} (h : ReadsNumber (c :: t) n r) :
    c.isDigit := by
  obtain ⟨digits, ht, hne, hdigits, -, -⟩ := h
  obtain ⟨d, digits, rfl⟩ := List.exists_cons_of_ne_nil hne
  rw [(List.cons.inj ht).1]
  exact hdigits d List.mem_cons_self

/-- `c` can begin a value: a word, a number, a string, an array or an object. -/
def startsValue (c : Char) : Bool :=
  c == 'n' || c == 't' || c == 'f' || c == '"' || c == '[' || c == '{' || c.isDigit

/-- A value begins with a character that can begin a value, never with a space or a bracket that
closes. -/
theorem Reads.startsValue_of_head {t r : Text} {v : Json} (h : Reads t v r) {c : Char}
    (hc : t.head? = some c) : startsValue c := by
  cases h with
  | number h =>
    obtain ⟨t, rfl⟩ := List.head?_eq_some_iff.1 hc
    simp [startsValue, h.isDigit]
  | _ =>
    obtain rfl := Option.some.inj hc
    decide

/-- What begins a value is no space, so where the spaces in front of a value end is settled. -/
theorem isSpace_of_startsValue {c : Char} (h : startsValue c) : isSpace c = false := by
  refine Bool.eq_false_iff.2 fun hspace => ?_
  simp only [isSpace, Bool.or_eq_true, beq_iff_eq] at hspace
  rcases hspace with ((rfl | rfl) | rfl) | rfl <;> exact absurd h (by decide)

/-- Where a character stands that begins no value, no item does, blanks in front or not. -/
theorem ReadsItem.not_spaced {t r s : Text} {c : Char} {v : Json} (h : ReadsItem t v s)
    (hspace : isSpace c = false) (hstart : startsValue c = false) : ¬ Spaced t (c :: r) := by
  intro hc
  cases h with
  | intro hu hv =>
    have hr := hc.eq_dropWhile fun d hd => Option.some.inj hd ▸ hspace
    have hu := hu.eq_dropWhile fun d hd => isSpace_of_startsValue (hv.startsValue_of_head hd)
    have hstarts : startsValue c := hv.startsValue_of_head (by rw [hu, ← hr]; rfl)
    exact absurd hstarts (by simp [hstart])

/-- Where a character stands that is no quote, no member does, blanks in front or not. -/
theorem ReadsMember.not_spaced {t r s : Text} {c : Char} {m : Text × Json} (h : ReadsMember t m s)
    (hspace : isSpace c = false) (hquote : c ≠ '"') : ¬ Spaced t (c :: r) := by
  intro hc
  cases h with
  | intro hkey => exact hquote (hc.token_unique hspace hkey rfl).1

/-! ### Sequences

Items and members are read alike: one element, then a comma and the rest, or what closes the
sequence.  The two grammars meet in `Listed`, which says what a reading starts with; how it
goes on is left to `Many`.
-/

section Listed

variable {α : Type} {close : Char} {One : Text → α → Text → Prop}
  {Many : Text → List α → Text → Prop}

/-- `t` begins with a sequence of elements that `close` ends. -/
inductive Listed (close : Char) (One : Text → α → Text → Prop) (Many : Text → List α → Text → Prop) :
    Text → List α → Text → Prop
  | none {t r : Text} (h : Spaced t (close :: r)) : Listed close One Many t [] r
  | last {t u r : Text} {x : α} (h : One t x u) (hclose : Spaced u (close :: r)) :
      Listed close One Many t [x] r
  | more {t u w r : Text} {x y : α} {xs : List α} (h : One t x u) (hcomma : Spaced u (',' :: w))
      (hs : Many w (y :: xs) r) : Listed close One Many t (x :: y :: xs) r

/-- The items of an array are a list with commas between them, which is how arrays and objects
come to share one proof. -/
theorem ReadsItems.listed {t r : Text} {items : List Json} (h : ReadsItems t items r) :
    Listed ']' ReadsItem ReadsItems t items r := by
  cases h with
  | none h => exact .none h
  | last h hclose => exact .last h hclose
  | more h hcomma hs => exact .more h hcomma hs

/-- The members of an object are a list with commas between them, which is how arrays and
objects come to share one proof. -/
theorem ReadsMembers.listed {t r : Text} {members : List (Text × Json)}
    (h : ReadsMembers t members r) : Listed '}' ReadsMember ReadsMembers t members r := by
  cases h with
  | none h => exact .none h
  | last h hclose => exact .last h hclose
  | more h hcomma hs => exact .more h hcomma hs

/-- What closes a sequence is told apart from blanks, digits, commas and elements. -/
structure Closes (close : Char) (One : Text → α → Text → Prop) : Prop where
  not_space : isSpace close = false
  not_digit : close.isDigit = false
  ne_comma : close ≠ ','
  not_one {t u r : Text} {x : α} : One t x u → ¬ Spaced t (close :: r)

/-- No item begins with the bracket that closes an array, and no member with the brace that
closes an object. -/
theorem closes_items : Closes ']' ReadsItem :=
  ⟨rfl, rfl, by decide, fun h => h.not_spaced rfl rfl⟩

theorem closes_members : Closes '}' ReadsMember :=
  ⟨rfl, rfl, by decide, fun h => h.not_spaced rfl (by decide)⟩

/-- The element `x` in front of `u` is the only one that `t` begins with. -/
def OnlyOne (One : Text → α → Text → Prop) (t : Text) (x : α) (u : Text) : Prop :=
  Ends u → ∀ {y : α} {w : Text}, One t y w → Ends w → x = y ∧ u = w

variable {t u w r s : Text} {x y : α} {xs l : List α}

/-- A list that closes at once has nothing in it, however it is read: what closes it begins no
item. -/
theorem Listed.unique_none (hc : Closes close One) (hclose : Spaced t (close :: r))
    (h : Listed close One Many t l s) : [] = l ∧ r = s := by
  cases h with
  | none hclose' => exact ⟨rfl, (hclose.token_unique hc.not_space hclose' hc.not_space).2⟩
  | last h' => exact absurd hclose (hc.not_one h')
  | more h' => exact absurd hclose (hc.not_one h')

/-- A list that closes behind its first entry has no other, however it is read: a comma cannot
stand where the bracket does. -/
theorem Listed.unique_last (hc : Closes close One) (h : One t x u) (hx : OnlyOne One t x u)
    (hclose : Spaced u (close :: r)) (h' : Listed close One Many t l s) : [x] = l ∧ r = s := by
  have hends : Ends u := hclose.ends (ends_cons hc.not_digit r)
  cases h' with
  | none hclose' => exact absurd hclose' (hc.not_one h)
  | last h' hclose' =>
    obtain ⟨rfl, rfl⟩ := hx hends h' (hclose'.ends (ends_cons hc.not_digit s))
    exact ⟨rfl, (hclose.token_unique hc.not_space hclose' hc.not_space).2⟩
  | more h' hcomma' =>
    obtain ⟨rfl, rfl⟩ := hx hends h' (hcomma'.ends (ends_cons rfl _))
    exact absurd (hclose.token_unique hc.not_space hcomma' rfl).1 hc.ne_comma

/-- A list that goes on behind its first entry with a comma does so however it is read, and the
entries behind it are the same by induction. -/
theorem Listed.unique_more (hc : Closes close One) (h : One t x u) (hx : OnlyOne One t x u)
    (hcomma : Spaced u (',' :: w))
    (hxs : ∀ {l : List α} {s : Text}, Many w l s → y :: xs = l ∧ r = s)
    (h' : Listed close One Many t l s) : x :: y :: xs = l ∧ r = s := by
  have hends : Ends u := hcomma.ends (ends_cons rfl w)
  cases h' with
  | none hclose' => exact absurd hclose' (hc.not_one h)
  | last h' hclose' =>
    obtain ⟨rfl, rfl⟩ := hx hends h' (hclose'.ends (ends_cons hc.not_digit s))
    exact absurd (hcomma.token_unique rfl hclose' hc.not_space).1.symm hc.ne_comma
  | more h' hcomma' hs' =>
    obtain ⟨rfl, rfl⟩ := hx hends h' (hcomma'.ends (ends_cons rfl _))
    obtain ⟨-, rfl⟩ := hcomma.token_unique rfl hcomma' rfl
    obtain ⟨hxs, rfl⟩ := hxs hs'
    exact ⟨by rw [hxs], rfl⟩

end Listed

/-! ### Values -/

mutual

/-- A text begins with one value at most, where the value does not go on: only a number could,
and `Ends` keeps it from that. -/
theorem Reads.onlyOne {t r : Text} {v : Json} (h : Reads t v r) : OnlyOne Reads t v r := by
  intro hr w s h' hs
  cases h with
  | null =>
    cases h' with
    | null => exact ⟨rfl, rfl⟩
    | number h' => exact absurd h'.isDigit (by decide)
  | true =>
    cases h' with
    | true => exact ⟨rfl, rfl⟩
    | number h' => exact absurd h'.isDigit (by decide)
  | false =>
    cases h' with
    | false => exact ⟨rfl, rfl⟩
    | number h' => exact absurd h'.isDigit (by decide)
  | number h =>
    cases h' with
    | number h' =>
      obtain ⟨rfl, rfl⟩ := h.unique hr h' hs
      exact ⟨rfl, rfl⟩
    | _ => exact absurd h.isDigit (by decide)
  | string h =>
    cases h' with
    | number h' => exact absurd h'.isDigit (by decide)
    | string h' =>
      obtain ⟨rfl, rfl⟩ := h.unique h'
      exact ⟨rfl, rfl⟩
  | array h =>
    cases h' with
    | number h' => exact absurd h'.isDigit (by decide)
    | array h' =>
      obtain ⟨rfl, rfl⟩ := h.unique h'
      exact ⟨rfl, rfl⟩
  | object h =>
    cases h' with
    | number h' => exact absurd h'.isDigit (by decide)
    | object h' =>
      obtain ⟨rfl, rfl⟩ := h.unique h'
      exact ⟨rfl, rfl⟩

/-- What is left behind the blanks is where the value begins, so an item reads as its value
does. -/
theorem ReadsItem.onlyOne {t r : Text} {v : Json} (h : ReadsItem t v r) :
    OnlyOne ReadsItem t v r := by
  intro hr w s h' hs
  cases h with
  | intro hspace h =>
    cases h' with
    | intro hspace' h' =>
      have hu := hspace.eq_dropWhile fun c hc => isSpace_of_startsValue (h.startsValue_of_head hc)
      have hu' := hspace'.eq_dropWhile fun c hc => isSpace_of_startsValue (h'.startsValue_of_head hc)
      obtain rfl := hu.trans hu'.symm
      exact h.onlyOne hr h' hs

/-- The items of an array read in one way.  By recursion on the reading, together with values
and members. -/
theorem ReadsItems.unique {t r : Text} {items : List Json} (h : ReadsItems t items r)
    {items' : List Json} {s : Text} (h' : ReadsItems t items' s) : items = items' ∧ r = s := by
  cases h with
  | none hclose => exact Listed.unique_none closes_items hclose h'.listed
  | last h hclose => exact Listed.unique_last closes_items h h.onlyOne hclose h'.listed
  | more h hcomma hs => exact Listed.unique_more closes_items h h.onlyOne hcomma hs.unique h'.listed

/-- A member reads in one way: its key, the colon and its value, each of which ends where the
next begins. -/
theorem ReadsMember.onlyOne {t r : Text} {m : Text × Json} (h : ReadsMember t m r) :
    OnlyOne ReadsMember t m r := by
  intro hr m' s h' hs
  cases h with
  | intro hquote hkey hcolon h =>
    cases h' with
    | intro hquote' hkey' hcolon' h' =>
      obtain ⟨-, rfl⟩ := hquote.token_unique rfl hquote' rfl
      obtain ⟨rfl, rfl⟩ := hkey.unique hkey'
      obtain ⟨-, rfl⟩ := hcolon.token_unique rfl hcolon' rfl
      obtain ⟨rfl, rfl⟩ := h.onlyOne hr h' hs
      exact ⟨rfl, rfl⟩

/-- The members of an object read in one way, and in the order they are written; a key that
comes twice is read twice. -/
theorem ReadsMembers.unique {t r : Text} {members : List (Text × Json)} (h : ReadsMembers t members r)
    {members' : List (Text × Json)} {s : Text} (h' : ReadsMembers t members' s) :
    members = members' ∧ r = s := by
  cases h with
  | none hclose => exact Listed.unique_none closes_members hclose h'.listed
  | last h hclose => exact Listed.unique_last closes_members h h.onlyOne hclose h'.listed
  | more h hcomma hs => exact Listed.unique_more closes_members h h.onlyOne hcomma hs.unique h'.listed

end

/-- **A document spells one value at most.**  So any reader that keeps to the grammar gets the
same value from it. -/
theorem Spells.unique {t : Text} {v w : Json} (h : Spells t v) (h' : Spells t w) : v = w := by
  obtain ⟨r, hv, hr⟩ := h
  obtain ⟨r', hw, hr'⟩ := h'
  exact (hv.onlyOne (hr.ends nofun) hw (hr'.ends nofun)).1

end Json

end DocLint
