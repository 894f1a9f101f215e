import EventChains.Json.Basic
import EventChains.Decimal.Reader
import EventChains.Text.CodePoint

/-!
# Reading JSON

`Json.readWith?` reads one JSON value that fills its text. Object fields keep their order, also
where a key occurs twice. A number without point and exponent is whole where its range allows it,
and real otherwise; `-0` is real. How the digits of a real number become a number is left to a
function: `Json.decode?` takes the nearest binary64 number.

`Json.read?` reads a real number in two steps, each of which rounds: its significand, which is cut
off where it would need more than 64 bits, and the product of that with a power of ten. So a number
with more than 15 digits can come out next to the nearest one.
-/

namespace EventChains.Json

open EventChains.Text

/-- The blanks of JSON. -/
def isSpace (c : Char) : Bool :=
  c == ' ' || c == '\t' || c == '\n' || c == '\r'

/-- The text without its leading blanks. -/
def skipSpace (text : List Char) : List Char :=
  text.dropWhile isSpace

/-- The character after a backslash that is no code point. -/
def shortEscape? (c : Char) : Option Char :=
  match c with
  | '"' => some '"'
  | '\\' => some '\\'
  | '/' => some '/'
  | 'b' => some '\x08'
  | 'f' => some '\x0c'
  | 'n' => some '\n'
  | 'r' => some '\r'
  | 't' => some '\t'
  | _ => none

/-- The characters up to the closing quotation mark, and the text after it. -/
def readQuoted? : List Char → Option (List Char × List Char)
  | [] => none
  | '"' :: rest => some ([], rest)
  | '\\' :: 'u' :: a :: b :: c :: d :: '\\' :: 'u' :: a' :: b' :: c' :: d' :: rest =>
      match hexNumber? [a, b, c, d] with
      | none => none
      | some code =>
          match charOfCode? code with
          | some char => do
              let (chars, rest) ← readQuoted? ('\\' :: 'u' :: a' :: b' :: c' :: d' :: rest)
              some (char :: chars, rest)
          | none => do
              let char ← charOfPair? code (← hexNumber? [a', b', c', d'])
              let (chars, rest) ← readQuoted? rest
              some (char :: chars, rest)
  | '\\' :: 'u' :: a :: b :: c :: d :: rest => do
      let char ← charOfCode? (← hexNumber? [a, b, c, d])
      let (chars, rest) ← readQuoted? rest
      some (char :: chars, rest)
  | '\\' :: c :: rest => do
      let char ← shortEscape? c
      let (chars, rest) ← readQuoted? rest
      some (char :: chars, rest)
  | c :: rest => do
      if c.toNat < 0x20 then none
      else
        let (chars, rest) ← readQuoted? rest
        some (c :: chars, rest)

/-- A character that a number can hold. -/
def isNumberChar (c : Char) : Bool :=
  c.isDigit || c == '-' || c == '+' || c == '.' || c == 'e' || c == 'E'

/-- A numeral without a sign and without a superfluous leading zero. -/
def isPlainNumeral (text : List Char) : Bool :=
  match text with
  | ['0'] => true
  | c :: rest => c.isDigit && c != '0' && rest.all Char.isDigit
  | [] => false

/-- A numeral, then a fraction with at least one digit, then an exponent; the last two may be
missing. -/
def isNumber (text : List Char) : Bool :=
  let unsigned := if text.head? = some '-' then text.tail else text
  let (leading, fraction, rest) := Decimal.splitFraction unsigned
  let hasPoint := (unsigned.dropWhile Char.isDigit).head? = some '.'
  isPlainNumeral leading && (!hasPoint || !fraction.isEmpty) &&
    (Decimal.readExponent? rest).isSome

/-- The number that digits make after the digits of `value`, as far as 64 bits hold it, and the
digits that are cut off. -/
def takeDigits (value : Nat) : List Char → Nat × List Char
  | [] => (value, [])
  | c :: rest =>
      let longer := digitsValue (c :: []) + 10 * value
      if longer < UInt64.size then takeDigits longer rest else (value, c :: rest)

/-- The greatest power of ten that is a binary64 number. -/
def topPower : Nat := 308

/-- `x / 10 ^ n`, where every divisor is a power that is a binary64 number. -/
def scaleDown (x : Float) (n : Nat) : Float :=
  if x == 0 then x
  else if n ≤ topPower then x / Decimal.ofDigits 1 n
  else scaleDown (x / Decimal.ofDigits 1 topPower) (n - topPower)
termination_by n
decreasing_by
  simp only [topPower] at *
  omega

/-- The magnitude that digits and an exponent give. -/
def readMagnitude? (unsigned : List Char) : Option Float := do
  let (leading, fraction, rest) := Decimal.splitFraction unsigned
  let (value, cut) := takeDigits 0 leading
  let (value, left) := takeDigits value fraction
  let exponent ← Decimal.readExponent? rest
  let exponent := exponent + cut.length - (fraction.length - left.length)
  let significand := Decimal.ofDigits value 0
  some <|
    if significand == 0 then significand
    else if 0 ≤ exponent then significand * Decimal.ofDigits 1 exponent
    else scaleDown significand exponent.natAbs

/-- Reads a number that has a point, an exponent or too many digits. -/
def readReal? : List Char → Option Float
  | '-' :: unsigned => (readMagnitude? unsigned).map (-·)
  | unsigned => readMagnitude? unsigned

/-- An integer that the format keeps exactly. -/
def isWhole (n : Int) : Bool :=
  -0x8000000000000000 ≤ n && n < 0x10000000000000000

/-- Reads the word `word` and gives `value` for it. -/
def readWord? (word : String) (value : Json) (text : List Char) : Option (Json × List Char) :=
  if word.toList.isPrefixOf text then some (value, text.drop word.length) else none

section

variable (real? : List Char → Option Float)

/-- Reads a number. -/
def readNumber? (text : List Char) : Option Json :=
  if isNumber text then
    match readInt? text with
    | some n =>
        if isWhole n && text ≠ ['-', '0'] then some (.whole n) else (real? text).map .real
    | none => (real? text).map .real
  else none

mutual

/-- Reads a value that starts the text; at most `depth` containers are nested. -/
def readValue? (depth : Nat) (text : List Char) : Option (Json × List Char) :=
  match depth, skipSpace text with
  | depth + 1, '[' :: rest =>
      match skipSpace rest with
      | ']' :: rest => some (.list [], rest)
      | rest => do
          let (items, rest) ← readItems? depth rest
          some (.list items, rest)
  | depth + 1, '\x7b' :: rest =>
      match skipSpace rest with
      | '\x7d' :: rest => some (.object [], rest)
      | rest => do
          let (fields, rest) ← readFields? depth rest
          some (.object fields, rest)
  | _, '"' :: rest => do
      let (chars, rest) ← readQuoted? rest
      some (.text (String.ofList chars), rest)
  | _, text =>
      readWord? "null" .null text <|> readWord? "true" (.bool true) text <|>
        readWord? "false" (.bool false) text <|> do
          let value ← readNumber? real? (text.takeWhile isNumberChar)
          some (value, text.dropWhile isNumberChar)

/-- Reads items up to the closing bracket. -/
def readItems? (depth : Nat) (text : List Char) : Option (List Json × List Char) := do
  match depth with
  | 0 => none
  | depth + 1 =>
      let (item, rest) ← readValue? depth text
      match skipSpace rest with
      | ',' :: rest =>
          let (items, rest) ← readItems? depth rest
          some (item :: items, rest)
      | ']' :: rest => some ([item], rest)
      | _ => none

/-- Reads fields up to the closing brace. -/
def readFields? (depth : Nat) (text : List Char) :
    Option (List (String × Json) × List Char) := do
  match depth, skipSpace text with
  | depth + 1, '"' :: rest =>
      let (key, rest) ← readQuoted? rest
      match skipSpace rest with
      | ':' :: rest =>
          let (value, rest) ← readValue? depth rest
          let field := (String.ofList key, value)
          match skipSpace rest with
          | ',' :: rest =>
              let (fields, rest) ← readFields? depth rest
              some (field :: fields, rest)
          | '\x7d' :: rest => some ([field], rest)
          | _ => none
      | _ => none
  | _, _ => none

end

/-- Reads one value that fills the text. A value never takes more reading steps than twice its
text has characters. -/
def readWith? (text : String) : Option Json :=
  let chars := text.toList
  match readValue? real? (2 * chars.length + 1) chars with
  | some (value, rest) => if (skipSpace rest).isEmpty then some value else none
  | none => none

end

/-- Reads one value that fills the text; a real number is read in two steps. -/
def read? (text : String) : Option Json :=
  readWith? readReal? text

/-- Reads one value that fills the text; a real number is the nearest one. -/
def decode? (text : String) : Option Json :=
  readWith? Decimal.read? text

end EventChains.Json
