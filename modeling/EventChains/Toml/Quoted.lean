import EventChains.Text.CodePoint

/-!
# Quoted text

Text stands between quotation marks on one line, or between threefold marks on several lines. In
double quotation marks a backslash starts an escape; between apostrophes every character stands
for itself. Control characters other than the tab have to be escaped. Line ends within several
lines are kept as they are written, also those of two characters.
-/

namespace EventChains.Toml

open EventChains.Text

/-- A control character other than the tab. -/
def isControl (c : Char) : Bool :=
  (c.toNat < 0x20 && c != '\t') || c == '\x7f'

/-- The character after a backslash that is no code point. -/
def shortEscape? (c : Char) : Option Char :=
  match c with
  | '"' => some '"'
  | '\\' => some '\\'
  | 'b' => some '\x08'
  | 'e' => some '\x1b'
  | 'f' => some '\x0c'
  | 'n' => some '\n'
  | 'r' => some '\r'
  | 't' => some '\t'
  | _ => none

/-- The character that the digits of base sixteen at the start of a text denote, and the text
after them. -/
def readCode? (digits : Nat) (text : List Char) : Option (Char × List Char) := do
  if text.length < digits then none
  else
    let char ← charOfCode? (← hexNumber? (text.take digits))
    some (char, text.drop digits)

/-- Reads an escape after its backslash. -/
def readEscape? : List Char → Option (Char × List Char)
  | 'x' :: text => readCode? 2 text
  | 'u' :: text => readCode? 4 text
  | 'U' :: text => readCode? 8 text
  | c :: text => (shortEscape? c).map (·, text)
  | [] => none

/-- Reads up to the closing quotation mark; `fuel` bounds the number of characters. -/
def readBasic? : (fuel : Nat) → List Char → Option (List Char × List Char)
  | 0, _ | _, [] => none
  | _, '"' :: text => some ([], text)
  | fuel + 1, '\\' :: text => do
      let (char, text) ← readEscape? text
      let (chars, text) ← readBasic? fuel text
      some (char :: chars, text)
  | fuel + 1, c :: text => do
      if isControl c then none
      else
        let (chars, text) ← readBasic? fuel text
        some (c :: chars, text)

/-- Reads up to the closing apostrophe. -/
def readLiteral? (text : List Char) : Option (List Char × List Char) :=
  let chars := text.takeWhile (· ≠ '\'')
  match text.dropWhile (· ≠ '\'') with
  | [] => none
  | _ :: rest => if chars.any isControl then none else some (chars, rest)

/-- The closing threefold mark, with up to two marks before it that belong to the text. -/
def closing? (mark : Char) (text : List Char) : Option (List Char × List Char) :=
  let marks := (text.takeWhile (· = mark)).length
  if marks < 3 then none
  else
    let inner := min (marks - 3) 2
    some (List.replicate inner mark, text.drop (inner + 3))

/-- The text without the blanks and line ends at its start. -/
def dropLayout : List Char → List Char
  | ' ' :: text | '\t' :: text | '\n' :: text | '\r' :: '\n' :: text => dropLayout text
  | text => text

/-- The text after a backslash that ends its line: blanks and line ends up to the next word are
left out. -/
def afterLineEnd? (text : List Char) : Option (List Char) :=
  match text.dropWhile fun c => c == ' ' || c == '\t' with
  | '\n' :: rest | '\r' :: '\n' :: rest => some (dropLayout rest)
  | _ => none

/-- Whether a text starts with a line end. -/
def startsLineEnd : List Char → Bool
  | '\n' :: _ | '\r' :: '\n' :: _ => true
  | _ => false

/-- Reads text of several lines up to its closing mark; `escapes` says whether a backslash starts
an escape, and `fuel` bounds the number of characters. -/
def readBlock? (mark : Char) (escapes : Bool) : (fuel : Nat) → List Char →
    Option (List Char × List Char)
  | 0, _ | _, [] => none
  | fuel + 1, c :: text =>
      match closing? mark (c :: text) with
      | some closed => some closed
      | none =>
          if c = '\\' && escapes then
            match afterLineEnd? text with
            | some text => readBlock? mark escapes fuel text
            | none => do
                let (char, text) ← readEscape? text
                let (chars, text) ← readBlock? mark escapes fuel text
                some (char :: chars, text)
          else if isControl c && !startsLineEnd (c :: text) then none
          else do
            let (chars, text) ← readBlock? mark escapes fuel text
            some (c :: chars, text)

/-- The text after a line end directly at the start of a block. -/
def dropLineEnd : List Char → List Char
  | '\n' :: text => text
  | '\r' :: '\n' :: text => text
  | text => text

/-- Reads quoted text of either kind on one line. -/
def readQuoted? : List Char → Option (List Char × List Char)
  | '"' :: text => readBasic? (text.length + 1) text
  | '\'' :: text => readLiteral? text
  | _ => none

/-- Reads quoted text of any kind. -/
def readText? : List Char → Option (List Char × List Char)
  | '"' :: '"' :: '"' :: text => readBlock? '"' true (text.length + 1) (dropLineEnd text)
  | '\'' :: '\'' :: '\'' :: text => readBlock? '\'' false (text.length + 1) (dropLineEnd text)
  | text => readQuoted? text

end EventChains.Toml
