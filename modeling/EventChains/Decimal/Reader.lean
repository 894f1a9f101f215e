import EventChains.Text.Numeral

/-!
# Reading decimals

A decimal is an optional sign and a magnitude: digits with at most one point among them, at least
one digit in all, and an optional exponent; or one of the words `inf`, `infinity` and `nan` in any
case. The value is rounded to the nearest binary64 number, a tie to the even significand.
-/

namespace EventChains.Decimal

open EventChains.Text

/-- `digits * 10 ^ exponent`, rounded. -/
def ofDigits (digits : Nat) (exponent : Int) : Float :=
  Float.ofScientific digits (exponent < 0) exponent.natAbs

/-- Positive infinity. -/
def infinity : Float := 1 / 0

/-- The number that no comparison holds of. -/
def notANumber : Float := 0 / 0

/-- The words that stand for a number. -/
def word? (text : List Char) : Option Float :=
  let word := text.map Char.toLower
  if word = "inf".toList || word = "infinity".toList then some infinity
  else if word = "nan".toList then some notANumber
  else none

/-- The exponent at the end of a decimal; none is zero. -/
def readExponent? : List Char → Option Int
  | [] => some 0
  | mark :: text => if mark = 'e' || mark = 'E' then readInt? text else none

/-- The digits before and after the point, and the text after them. -/
def splitFraction (text : List Char) : List Char × List Char × List Char :=
  let whole := text.takeWhile Char.isDigit
  match text.dropWhile Char.isDigit with
  | '.' :: rest => (whole, rest.takeWhile Char.isDigit, rest.dropWhile Char.isDigit)
  | rest => (whole, [], rest)

/-- Reads a magnitude in digits. -/
def readMagnitude? (text : List Char) : Option Float :=
  let (whole, fraction, rest) := splitFraction text
  if whole.isEmpty && fraction.isEmpty then none
  else do
    let exponent ← readExponent? rest
    some (ofDigits (digitsValue (whole ++ fraction)) (exponent - fraction.length))

/-- Reads a magnitude in digits or as a word. -/
def readUnsigned? (text : List Char) : Option Float :=
  readMagnitude? text <|> word? text

/-- Reads a decimal. -/
def read? : List Char → Option Float
  | '+' :: text => readUnsigned? text
  | '-' :: text => (readUnsigned? text).map (-·)
  | text => readUnsigned? text

end EventChains.Decimal
