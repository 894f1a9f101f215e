/-!
# Code points in text

A code point can be written by digits of base sixteen in either case. A surrogate is no character.
A byte order mark is one, but at the start of a text it only says how the text is encoded.
-/

namespace EventChains.Text

/-- The value of a digit of base sixteen, in either case. -/
def hexValue? (c : Char) : Option Nat :=
  if c.isDigit then some (c.toNat - '0'.toNat)
  else if 'a' ≤ c ∧ c ≤ 'f' then some (c.toNat - 'a'.toNat + 10)
  else if 'A' ≤ c ∧ c ≤ 'F' then some (c.toNat - 'A'.toNat + 10)
  else none

/-- The number written by digits of base sixteen; zero for none. -/
def hexNumber? (digits : List Char) : Option Nat :=
  digits.foldlM (fun value digit => (hexValue? digit).map (16 * value + ·)) 0

/-- The character with the code point `n`; a surrogate is none. -/
def charOfCode? (n : Nat) : Option Char :=
  if h : n.isValidChar then some (Char.ofNatAux n h) else none

/-- The character of a pair of surrogates. -/
def charOfPair? (high low : Nat) : Option Char :=
  if 0xD800 ≤ high ∧ high < 0xDC00 ∧ 0xDC00 ≤ low ∧ low < 0xE000 then
    charOfCode? (0x10000 + 0x400 * (high - 0xD800) + (low - 0xDC00))
  else none

/-- The text after a byte order mark at its start; without one it is the whole text. -/
def dropOrderMark : List Char → List Char
  | '\uFEFF' :: text => text
  | text => text

end EventChains.Text
