import EventChains.Toml.Basic
import EventChains.Toml.Moment
import EventChains.Toml.Numeral
import EventChains.Toml.Quoted

/-!
# Reading TOML

`readStatements?` reads the statements of a document. Every reading step takes at least one
character, so the length of the text bounds their number. Lists and tables that are written as
values may stand in one another up to a certain depth, and a path may have as many keys.
-/

namespace EventChains.Toml

open EventChains.Text

/-- The text without its leading blanks. -/
def skipSpace (text : List Char) : List Char :=
  text.dropWhile fun c => c == ' ' || c == '\t'

/-- Skips blanks, line ends and comments; `comment` says whether the text starts inside a
comment. -/
def skipLayout? : (comment : Bool) → List Char → Option (List Char)
  | _, [] => some []
  | _, '\n' :: text => skipLayout? false text
  | _, '\r' :: '\n' :: text => skipLayout? false text
  | true, c :: text => if isControl c then none else skipLayout? true text
  | false, '#' :: text => skipLayout? true text
  | false, c :: text =>
      if c = ' ' || c = '\t' then skipLayout? false text else some (c :: text)

/-- Skips the rest of a line, which holds nothing but a comment. -/
def endLine? (text : List Char) : Option (List Char) :=
  match skipSpace text with
  | [] => some []
  | c :: rest =>
      if c = '\n' || c = '\r' || c = '#' then skipLayout? false (c :: rest) else none

/-- A character of a key without quotation marks. -/
def isBareKeyChar (c : Char) : Bool :=
  c.isAlphanum || c == '_' || c == '-'

/-- Reads one key. -/
def readKey? (text : List Char) : Option (String × List Char) :=
  let bare := text.takeWhile isBareKeyChar
  if bare.isEmpty then (readQuoted? text).map fun (chars, rest) => (String.ofList chars, rest)
  else some (String.ofList bare, text.dropWhile isBareKeyChar)

/-- Reads keys with points between them, and the blanks after them. -/
def readPath? : (fuel : Nat) → List Char → Option (Path × List Char)
  | 0, _ => none
  | fuel + 1, text => do
      let (key, rest) ← readKey? (skipSpace text)
      match skipSpace rest with
      | '.' :: rest => do
          let (path, rest) ← readPath? fuel rest
          some (key :: path, rest)
      | rest => some ([key], rest)

/-- The greatest depth of values in one another, and the greatest number of keys in a path. -/
def deepest : Nat := 80

/-- Reads a path that is not too long. -/
def readBoundedPath? (fuel : Nat) (text : List Char) : Option (Path × List Char) := do
  let (path, rest) ← readPath? fuel text
  if path.length ≤ deepest then some (path, rest) else none

/-- Reads a path and a sign of equality; `skip` passes over what may stand around the sign. -/
def readKeys? (skip : List Char → Option (List Char)) (fuel : Nat) (text : List Char) :
    Option (Path × List Char) := do
  let (path, rest) ← readBoundedPath? fuel text
  match ← skip rest with
  | '=' :: rest => some (path, ← skip rest)
  | _ => none

/-- A character of a value without quotation marks. -/
def isPlainChar (c : Char) : Bool :=
  c.isAlphanum || c == '+' || c == '-' || c == '_' || c == '.' || c == ':'

/-- Splits off a value without quotation marks; a single space may stand between a date and a
time. -/
def splitPlain (text : List Char) : List Char × List Char :=
  let plain := text.takeWhile isPlainChar
  match readDate? plain, text.dropWhile isPlainChar with
  | some (_, []), ' ' :: c :: rest =>
      if c.isDigit then
        (plain ++ ' ' :: c :: rest.takeWhile isPlainChar, rest.dropWhile isPlainChar)
      else (plain, ' ' :: c :: rest)
  | _, rest => (plain, rest)

/-- Reads a value without quotation marks. -/
def readPlain? (text : List Char) : Option Term :=
  if text = "true".toList then some (.flag true)
  else if text = "false".toList then some (.flag false)
  else
    (readWhole? text).map .whole <|> (readReal? text).map .real <|>
      (readMoment? text).map fun chars => .moment (String.ofList chars)

/-- Reads a value that is no list and no table. -/
def readScalar? (text : List Char) : Option (Term × List Char) :=
  match text with
  | '"' :: _ | '\'' :: _ => do
      let (chars, rest) ← readText? text
      some (.text (String.ofList chars), rest)
  | _ => do
      let (plain, rest) := splitPlain text
      some (← readPlain? plain, rest)

mutual

/-- Reads the value at the start of a text; at most `depth` lists and tables stand in one
another. -/
def readTerm? : (depth fuel : Nat) → List Char → Option (Term × List Char)
  | _, 0, _ => none
  | depth + 1, fuel + 1, '[' :: text => do
      let (items, rest) ← readItems? depth fuel (← skipLayout? false text)
      some (.list items, rest)
  | depth + 1, fuel + 1, '\x7b' :: text => do
      let (entries, rest) ← readEntries? depth fuel (← skipLayout? false text)
      some (.table entries, rest)
  | _, _, text => readScalar? text

/-- Reads items up to the closing bracket; a comma may follow the last one. -/
def readItems? (depth : Nat) : (fuel : Nat) → List Char → Option (List Term × List Char)
  | 0, _ => none
  | _, ']' :: rest => some ([], rest)
  | fuel + 1, text => do
      let (item, rest) ← readTerm? depth fuel text
      match ← skipLayout? false rest with
      | ',' :: rest =>
          let (items, rest) ← readItems? depth fuel (← skipLayout? false rest)
          some (item :: items, rest)
      | ']' :: rest => some ([item], rest)
      | _ => none

/-- Reads entries up to the closing brace; a comma may follow the last one. Line ends and comments
may stand around every key and value. -/
def readEntries? (depth : Nat) : (fuel : Nat) → List Char →
    Option (List (Path × Term) × List Char)
  | 0, _ => none
  | _, '\x7d' :: rest => some ([], rest)
  | fuel + 1, text => do
      let (path, rest) ← readKeys? (skipLayout? false) (fuel + 1) text
      let (value, rest) ← readTerm? depth fuel rest
      match ← skipLayout? false rest with
      | ',' :: rest =>
          let (entries, rest) ← readEntries? depth fuel (← skipLayout? false rest)
          some ((path, value) :: entries, rest)
      | '\x7d' :: rest => some ([(path, value)], rest)
      | _ => none

end

/-- Reads the statement at the start of a text. -/
def readStatement? (fuel : Nat) : List Char → Option (Statement × List Char)
  | '[' :: '[' :: text => do
      match ← readBoundedPath? fuel text with
      | (path, ']' :: ']' :: rest) => some (.rowHeader path, rest)
      | _ => none
  | '[' :: text => do
      match ← readBoundedPath? fuel text with
      | (path, ']' :: rest) => some (.header path, rest)
      | _ => none
  | text => do
      let (path, rest) ← readKeys? (some ∘ skipSpace) fuel text
      let (value, rest) ← readTerm? deepest fuel rest
      some (.entry path value, rest)

/-- Reads statements up to the end of the text. -/
def readLines? : (fuel : Nat) → List Char → Option (List Statement)
  | 0, _ => none
  | fuel + 1, text => do
      match ← skipLayout? false text with
      | [] => some []
      | text =>
          let (statement, rest) ← readStatement? (fuel + 1) text
          let statements ← readLines? fuel (← endLine? rest)
          some (statement :: statements)

/-- Reads the statements of a document, which may start with a byte order mark. -/
def readStatements? (text : List Char) : Option (List Statement) :=
  let text := dropOrderMark text
  readLines? (2 * text.length + 2) text

end EventChains.Toml
