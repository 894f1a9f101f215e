import EventChains.Json.Basic
import EventChains.Decimal.Layout

/-!
# Writing JSON

A value is written in one of two ways: `compact` has no blanks at all, `pretty` puts every item
and field on a line of its own, two blanks deeper than its container. Text is quoted with the
fewest escapes: the quotation mark, the backslash and the control characters below `U+0020`.
-/

namespace EventChains.Json

/-- A digit of base sixteen, in lower case. -/
def hexDigit (n : Nat) : Char :=
  Nat.digitChar (n % 16)

/-- A character inside a quoted text. -/
def escapeChar (c : Char) : List Char :=
  if c = '"' then ['\\', '"']
  else if c = '\\' then ['\\', '\\']
  else if c = '\x08' then ['\\', 'b']
  else if c = '\t' then ['\\', 't']
  else if c = '\n' then ['\\', 'n']
  else if c = '\x0c' then ['\\', 'f']
  else if c = '\r' then ['\\', 'r']
  else if c.toNat < 0x20 then ['\\', 'u', '0', '0', hexDigit (c.toNat / 16), hexDigit c.toNat]
  else [c]

/-- A quoted text. -/
def quote (s : String) : List Char :=
  '"' :: s.toList.flatMap escapeChar ++ ['"']

/-- A value that holds no other, and the empty containers. -/
def scalar : Json → List Char
  | .null => "null".toList
  | .bool b => (if b then "true" else "false").toList
  | .whole n => (toString n).toList
  | .real x => (Decimal.Layout.json.text x).toList
  | .text s => quote s
  | .list _ => ['[', ']']
  | .object _ => ['\x7b', '\x7d']

mutual

/-- The characters of a value without blanks. -/
def compactChars : Json → List Char
  | .list (item :: rest) => '[' :: compactChars item ++ compactItems rest ++ [']']
  | .object (field :: rest) =>
      '\x7b' :: quote field.1 ++ ':' :: compactChars field.2 ++ compactFields rest ++ ['\x7d']
  | value => scalar value

/-- The items after the first, each after its comma. -/
def compactItems : List Json → List Char
  | [] => []
  | item :: rest => ',' :: compactChars item ++ compactItems rest

/-- The fields after the first, each after its comma. -/
def compactFields : List (String × Json) → List Char
  | [] => []
  | field :: rest =>
      ',' :: quote field.1 ++ ':' :: compactChars field.2 ++ compactFields rest

end

/-- The value without blanks. -/
def compact (value : Json) : String :=
  String.ofList (compactChars value)

/-- The start of a line at depth `depth`. -/
def newline (depth : Nat) : List Char :=
  '\n' :: List.replicate (2 * depth) ' '

mutual

/-- The characters of a value with one line for each item and field; `depth` containers are open
around it. -/
def prettyChars (depth : Nat) : Json → List Char
  | .list (item :: rest) =>
      '[' :: newline (depth + 1) ++ prettyChars (depth + 1) item ++ prettyItems (depth + 1) rest ++
        newline depth ++ [']']
  | .object (field :: rest) =>
      '\x7b' :: newline (depth + 1) ++ quote field.1 ++ ':' :: ' ' ::
        prettyChars (depth + 1) field.2 ++ prettyFields (depth + 1) rest ++ newline depth ++
        ['\x7d']
  | value => scalar value

/-- The items after the first, each after its comma. -/
def prettyItems (depth : Nat) : List Json → List Char
  | [] => []
  | item :: rest =>
      ',' :: newline depth ++ prettyChars depth item ++ prettyItems depth rest

/-- The fields after the first, each after its comma. -/
def prettyFields (depth : Nat) : List (String × Json) → List Char
  | [] => []
  | field :: rest =>
      ',' :: newline depth ++ quote field.1 ++ ':' :: ' ' :: prettyChars depth field.2 ++
        prettyFields depth rest

end

/-- The value with one line for each item and field. -/
def pretty (value : Json) : String :=
  String.ofList (prettyChars 0 value)

end EventChains.Json
