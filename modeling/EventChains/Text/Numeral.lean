/-!
# Whole numbers in text

A numeral is a non-empty run of the ASCII digits, read in base ten; leading zeros are allowed.
A natural number may carry one `+`, an integer one `+` or `-`. The fixed-width readers refuse a
numeral that is out of range and never wrap.
-/

namespace EventChains.Text

/-- The value of a run of digits in base ten; zero for the empty run. -/
def digitsValue (digits : List Char) : Nat :=
  digits.foldl (fun value digit => 10 * value + (digit.toNat - '0'.toNat)) 0

/-- Reads a non-empty run of digits. -/
def readDigits? (text : List Char) : Option Nat :=
  if !text.isEmpty && text.all Char.isDigit then some (digitsValue text) else none

/-- Reads digits after at most one `+`. -/
def readNat? : List Char → Option Nat
  | '+' :: digits => readDigits? digits
  | digits => readDigits? digits

/-- Reads digits after at most one sign. -/
def readInt? : List Char → Option Int
  | '+' :: digits => (readDigits? digits).map Int.ofNat
  | '-' :: digits => (readDigits? digits).map fun n => -(n : Int)
  | digits => (readDigits? digits).map Int.ofNat

/-- Reads a natural number below `2 ^ 64`. -/
def readUInt64? (text : List Char) : Option UInt64 := do
  let n ← readNat? text
  if n < UInt64.size then some (UInt64.ofNat n) else none

/-- An integer that fits in 64 bits with a sign. -/
def isInt64 (n : Int) : Bool :=
  decide (-0x8000000000000000 ≤ n ∧ n < 0x8000000000000000)

/-- Reads an integer from `-2 ^ 63` up to `2 ^ 63 - 1`. -/
def readInt64? (text : List Char) : Option Int := do
  let n ← readInt? text
  if isInt64 n then some n else none

end EventChains.Text
