import EventChains.Decimal.Shortest

/-!
# Decimal layout

How a binary64 number is written: the shortest digits that read back, laid out by a `Layout`.
Two layouts are in use. `Layout.listing` is always positional and has no point in a whole
number; `Layout.json` writes JSON numbers, with a point or an exponent in each. Where two shortest
decimals are equally near, a listing has the greater one and JSON text the one that ends in an even
digit.
-/

namespace EventChains.Decimal

/-- The decisions of a decimal format. -/
structure Layout where
  /-- Whether a number with its first digit at `10 ^ e` is written without an exponent. -/
  positional : Int → Bool
  /-- Whether a whole number is written with `.0`. -/
  keepsPoint : Bool
  /-- Which of two equally near decimals is written. -/
  tie : Tie
  /-- What is written for a number that is not finite. -/
  nonFinite : Float → String

/-- Listings: never an exponent, and no point in a whole number. -/
def Layout.listing : Layout where
  positional _ := true
  keepsPoint := false
  tie := .up
  nonFinite x := if x.isNaN then "NaN" else if x < 0 then "-inf" else "inf"

/-- JSON text: positional from `10 ^ -5` up to below `10 ^ 16`, always told apart from an integer.
JSON has no number that is not finite. -/
def Layout.json : Layout where
  positional e := -5 ≤ e && e < 16
  keepsPoint := true
  tie := .even
  nonFinite _ := "null"

/-- `n` zeros. -/
def zeros (n : Nat) : List Char :=
  List.replicate n '0'

/-- The decimal digits of `n`. -/
def digitsOf (n : Nat) : List Char :=
  (Nat.repr n).toList

namespace Layout

variable (form : Layout)

/-- The digits of a decimal with a point at the right place. -/
def positionalText (d : Decimal) : List Char :=
  let digits := digitsOf d.digits
  let places := (-d.exponent).toNat
  if 0 ≤ d.exponent then
    digits ++ zeros d.exponent.toNat ++ if form.keepsPoint then ['.', '0'] else []
  else if places < digits.length then
    digits.take (digits.length - places) ++ '.' :: digits.drop (digits.length - places)
  else
    '0' :: '.' :: zeros (places - digits.length) ++ digits

/-- One digit before the point, and an exponent that always has a sign. -/
def scientificText (digits : List Char) (e : Int) : List Char :=
  digits.take 1 ++ (if digits.length ≤ 1 then [] else '.' :: digits.drop 1) ++
    'e' :: (if e < 0 then '-' else '+') :: digitsOf e.natAbs

/-- A decimal as text. -/
def decimalText (d : Decimal) : List Char :=
  let digits := digitsOf d.digits
  let e := d.exponent + digits.length - 1
  if form.positional e then form.positionalText d else scientificText digits e

/-- A number as text. Zero keeps its sign. -/
def text (x : Float) : String :=
  if x.isFinite then
    let bits := x.toBits
    let magnitude := Magnitude.ofBits bits
    let decimal := if magnitude.m = 0 then ⟨0, 0⟩ else magnitude.shortest form.tie
    let sign := if 0x8000000000000000 ≤ bits then ['-'] else []
    String.ofList (sign ++ form.decimalText decimal)
  else form.nonFinite x

end Layout

/-- A number as listings show it. -/
def listed (x : Float) : String :=
  Layout.listing.text x

end EventChains.Decimal
