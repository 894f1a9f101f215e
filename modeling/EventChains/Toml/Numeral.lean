import EventChains.Decimal.Reader
import EventChains.Text.CodePoint

/-!
# Numerals

Underscores may stand between the digits of a numeral. A numeral in base ten has no superfluous
leading zero; one in base two, eight or sixteen starts with its base and has no sign. A whole
number has 64 bits with a sign, and a real one is finite unless it is written as a word.
-/

namespace EventChains.Toml

open EventChains.Text

/-- The digits of a numeral without the underscores between them. -/
def plainDigits? (isDigit : Char → Bool) : List Char → Option (List Char)
  | [] => none
  | [c] => if isDigit c then some [c] else none
  | c :: '_' :: rest =>
      if isDigit c then (plainDigits? isDigit rest).map (c :: ·) else none
  | c :: rest => if isDigit c then (plainDigits? isDigit rest).map (c :: ·) else none

/-- Digits in base ten without a superfluous leading zero. -/
def plainDecimal? (text : List Char) : Option (List Char) := do
  let digits ← plainDigits? Char.isDigit text
  if digits.length > 1 && digits.head? = some '0' then none else some digits

/-- A digit of the given base, at most sixteen. -/
def isDigitOf (base : Nat) (c : Char) : Bool :=
  (hexValue? c).any (· < base)

/-- Reads a numeral of the given base after its mark. -/
def readInBase? (base : Nat) (text : List Char) : Option Int := do
  let digits ← plainDigits? (isDigitOf base) text
  let value ← digits.foldlM (fun value c => (hexValue? c).map (base * value + ·)) 0
  some value

/-- Splits a sign from a text; `true` means minus. -/
def splitSign : List Char → Bool × List Char
  | '+' :: text => (false, text)
  | '-' :: text => (true, text)
  | text => (false, text)

/-- Reads a whole number. -/
def readWhole? (text : List Char) : Option Int := do
  let value ← match text with
    | '0' :: 'x' :: digits => readInBase? 16 digits
    | '0' :: 'o' :: digits => readInBase? 8 digits
    | '0' :: 'b' :: digits => readInBase? 2 digits
    | _ =>
        let (negative, unsigned) := splitSign text
        let value : Int := digitsValue (← plainDecimal? unsigned)
        some (if negative then -value else value)
  if isInt64 value then some value else none

/-- A digit or an underscore. -/
def isNumeralChar (c : Char) : Bool :=
  c.isDigit || c == '_'

/-- Reads the exponent at the end of a real number. -/
def readExponent? : List Char → Option Int
  | [] => some 0
  | mark :: text => do
      if mark = 'e' || mark = 'E' then
        let (negative, unsigned) := splitSign text
        let value : Int := digitsValue (← plainDigits? Char.isDigit unsigned)
        some (if negative then -value else value)
      else none

/-- Reads a magnitude in digits with a point or an exponent; it has to be finite. -/
def readMagnitude? (text : List Char) : Option Float := do
  let whole ← plainDecimal? (text.takeWhile isNumeralChar)
  let (fraction, rest) ← match text.dropWhile isNumeralChar with
    | [] => none
    | '.' :: rest => do
        let digits ← plainDigits? Char.isDigit (rest.takeWhile isNumeralChar)
        some (digits, rest.dropWhile isNumeralChar)
    | rest => some ([], rest)
  let exponent ← readExponent? rest
  let value := Decimal.ofDigits (digitsValue (whole ++ fraction)) (exponent - fraction.length)
  if value.isFinite then some value else none

/-- Reads a real number. -/
def readReal? (text : List Char) : Option Float := do
  let (negative, unsigned) := splitSign text
  let value ←
    if unsigned = "inf".toList then some Decimal.infinity
    else if unsigned = "nan".toList then some Decimal.notANumber
    else readMagnitude? unsigned
  some (if negative then -value else value)

end EventChains.Toml
