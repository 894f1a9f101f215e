import EventChains.Text.Combining
import EventChains.Text.Unprintable

/-!
# Text in quotation marks

`quoted` shows a text between quotation marks so that each of its characters can be seen: a
quotation mark, a backslash and every character that prints nothing or combines with the one before
it is written as an escape.
-/

namespace EventChains.Text

/-- A code point in braces, in base sixteen. -/
def codeEscape (c : Char) : List Char :=
  "\\u\x7b".toList ++ Nat.toDigits 16 c.toNat ++ ['\x7d']

/-- A character as it is shown. -/
def shown (c : Char) : List Char :=
  match c with
  | '"' => ['\\', '"']
  | '\\' => ['\\', '\\']
  | '\t' => ['\\', 't']
  | '\n' => ['\\', 'n']
  | '\r' => ['\\', 'r']
  | '\x00' => ['\\', '0']
  | c => if isCombining c || isUnprintable c then codeEscape c else [c]

/-- A text in quotation marks. -/
def quoted (text : String) : String :=
  String.ofList ('"' :: text.toList.flatMap shown ++ ['"'])

end EventChains.Text
