/-
# Blanks

The characters of the Unicode property `White_Space`, and the removal of blanks
at both ends of a text.

| range | count |
| --- | ---: |
| U+0009 … U+000D | 5 |
| U+0020, U+0085, U+00A0, U+1680 | 4 |
| U+2000 … U+200A | 11 |
| U+2028, U+2029, U+202F, U+205F, U+3000 | 5 |

What is stripped at both ends begins and ends with nothing more to strip
(`head_strip`, `getLast_strip`), so a second `trim` changes nothing.
-/

import DocLint.Text

namespace DocLint

/-- `c` has the property `White_Space`. -/
def isBlank (c : Char) : Bool :=
  let n := c.toNat
  (0x9 ≤ n && n ≤ 0xD) || n == 0x20 || n == 0x85 || n == 0xA0 || n == 0x1680 ||
    (0x2000 ≤ n && n ≤ 0x200A) || n == 0x2028 || n == 0x2029 || n == 0x202F || n == 0x205F ||
    n == 0x3000

namespace Text

/-- `t` without the longest run of characters meeting `p` at either end. -/
def strip (p : Char → Bool) (t : Text) : Text :=
  ((t.dropWhile p).reverse.dropWhile p).reverse

/-- `t` without the blanks at either end. -/
def trim (t : Text) : Text := strip isBlank t

/-- A stripped text ends with no character that meets `p`: the pass from behind stopped there.
-/
theorem getLast_strip {p : Char → Bool} {t : Text} {c : Char}
    (h : (strip p t).getLast? = some c) : p c = false := by
  rw [strip, List.getLast?_reverse] at h
  simpa [h] using List.head?_dropWhile_not p (t.dropWhile p).reverse

/-- A stripped text begins with no character that meets `p`: the pass from the front stopped
there, and the pass from behind takes nothing in front of what it stops at. -/
theorem head_strip {p : Char → Bool} {t : Text} {c : Char}
    (h : (strip p t).head? = some c) : p c = false := by
  rw [strip, List.head?_reverse] at h
  have hs : (List.dropWhile p (t.dropWhile p).reverse) <:+ (t.dropWhile p).reverse :=
    List.dropWhile_suffix p
  have hl : (t.dropWhile p).head? = some c := by
    obtain ⟨u, hu⟩ := hs
    rw [← List.getLast?_reverse, ← hu, List.getLast?_append, h]
    rfl
  simpa [hl] using List.head?_dropWhile_not p t

end Text

end DocLint
