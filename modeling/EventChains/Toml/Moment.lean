import EventChains.Text.Numeral

/-!
# Dates and times

A moment is a date, a time of day, or both, in which case an offset from universal time may follow.
Seconds may be missing. In its usual form a `T` joins date and time, `Z` is written large, a
fraction of a second has at most nine digits and no trailing zero but its only one, and an offset of
zero is positive.
-/

namespace EventChains.Toml

open EventChains.Text

/-- A number with two digits, at most `most`. -/
def isPairOfDigits (most : Nat) (a b : Char) : Bool :=
  a.isDigit && b.isDigit && digitsValue [a, b] ≤ most

/-- The number of days of a month. -/
def daysIn (year month : Nat) : Nat :=
  if month = 2 then
    if year % 4 = 0 && (year % 100 != 0 || year % 400 = 0) then 29 else 28
  else if month = 4 || month = 6 || month = 9 || month = 11 then 30
  else 31

/-- The date at the start of a text, and the text after it. -/
def readDate? : List Char → Option (List Char × List Char)
  | y₁ :: y₂ :: y₃ :: y₄ :: '-' :: m₁ :: m₂ :: '-' :: d₁ :: d₂ :: rest =>
      let year := digitsValue [y₁, y₂, y₃, y₄]
      let month := digitsValue [m₁, m₂]
      let isYear := y₁.isDigit && y₂.isDigit && y₃.isDigit && y₄.isDigit
      let isDay := isPairOfDigits (daysIn year month) d₁ d₂ && digitsValue [d₁, d₂] ≠ 0
      if isYear && isPairOfDigits 12 m₁ m₂ && month ≠ 0 && isDay then
        some ([y₁, y₂, y₃, y₄, '-', m₁, m₂, '-', d₁, d₂], rest)
      else none
  | _ => none

/-- A fraction of a second in its usual form, after its point. -/
def usualFraction (digits : List Char) : List Char :=
  match ((digits.take 9).reverse.dropWhile (· = '0')).reverse with
  | [] => ['.', '0']
  | digits => '.' :: digits

/-- The seconds at the start of a text, with their colon. -/
def readSeconds? : List Char → Option (List Char × List Char)
  | ':' :: a :: b :: rest =>
      if isPairOfDigits 60 a b then
        match rest with
        | '.' :: rest =>
            let digits := rest.takeWhile Char.isDigit
            if digits.isEmpty then none
            else some (':' :: a :: b :: usualFraction digits, rest.dropWhile Char.isDigit)
        | rest => some ([':', a, b], rest)
      else none
  | ':' :: _ => none
  | rest => some ([], rest)

/-- The time of day at the start of a text, and the text after it. -/
def readTime? : List Char → Option (List Char × List Char)
  | h₁ :: h₂ :: ':' :: m₁ :: m₂ :: rest => do
      if isPairOfDigits 23 h₁ h₂ && isPairOfDigits 59 m₁ m₂ then
        let (seconds, rest) ← readSeconds? rest
        some ([h₁, h₂, ':', m₁, m₂] ++ seconds, rest)
      else none
  | _ => none

/-- Reads the offset at the end of a text; it may be missing. -/
def readOffset? : List Char → Option (List Char)
  | [] => some []
  | ['z'] | ['Z'] => some ['Z']
  | [sign, h₁, h₂, ':', m₁, m₂] =>
      if (sign = '+' || sign = '-') && isPairOfDigits 23 h₁ h₂ && isPairOfDigits 59 m₁ m₂ then
        let sign := if digitsValue [h₁, h₂, m₁, m₂] = 0 then '+' else sign
        some [sign, h₁, h₂, ':', m₁, m₂]
      else none
  | _ => none

/-- Reads a moment that fills the text. -/
def readMoment? (text : List Char) : Option (List Char) :=
  match readDate? text with
  | some (date, []) => some date
  | some (date, mark :: rest) => do
      if mark = 'T' || mark = 't' || mark = ' ' then
        let (time, rest) ← readTime? rest
        some (date ++ 'T' :: time ++ (← readOffset? rest))
      else none
  | none =>
      match readTime? text with
      | some (time, []) => some time
      | _ => none

end EventChains.Toml
