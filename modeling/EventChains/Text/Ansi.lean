/-!
# Terminal styling

Escape sequences that set a style, and `strip`, which takes escape sequences and other control
characters out of a text for an output that is no terminal.

A sequence is not always in one piece. A blank that moves the cursor is printed also inside a
sequence, together with the characters that directly follow it; the next control character goes on
with the sequence. In a run of printed characters only one outside of ASCII ends the sequence.
-/

namespace EventChains.Text.Ansi

/-- The start of every style sequence. -/
def escape : Char := '\x1b'

/-- The sequence that selects graphic rendition `code`. -/
def select (code : Nat) : String :=
  s!"{escape}[{code}m"

def bold : String := select 1
def dim : String := select 2
def red : String := select 31
def cyan : String := select 36

/-- Ends every style. -/
def reset : String := select 0

/-- Ends bold and dim text. -/
def normalWeight : String := select 22

/-- Returns to the default colour. -/
def defaultColour : String := select 39

/-- Where a reader of styled text stands. -/
inductive Mode where
  /-- Between sequences. -/
  | plain
  /-- After the escape character. -/
  | escaped
  /-- In an escape sequence that has an intermediate character. -/
  | escapedMore
  /-- In a control sequence, where any final character ends it. -/
  | control
  /-- In an operating system command, which a bell ends. -/
  | command
  /-- At the start of a device string. -/
  | device
  /-- In the parameters of a device string. -/
  | deviceParameters
  /-- After an intermediate character of a device string. -/
  | deviceMore
  /-- In the contents of a device, privacy or application string. -/
  | string
  deriving DecidableEq, Repr

/-- A blank that moves the cursor. -/
def isLayout (c : Char) : Bool :=
  c == '\t' || c == '\n' || c == '\x0c' || c == '\r'

/-- The characters that end a sequence of any kind: cancel and substitute. -/
def isCancel (c : Char) : Bool :=
  c == '\x18' || c == '\x1a'

/-- Whether `c` lies between `low` and `high`, both included. -/
def within (low high : Nat) (c : Char) : Bool :=
  low ≤ c.toNat && c.toNat ≤ high

/-- A character outside of ASCII. -/
def isWide (c : Char) : Bool :=
  0x80 ≤ c.toNat

/-- A character that is printed between sequences. -/
def isPrinted (c : Char) : Bool :=
  isLayout c || within 0x20 0x7E c || isWide c

/-- Whether one of the bytes of a character is the string terminator. -/
def endsString (c : Char) : Bool :=
  (String.utf8EncodeChar c).contains 0x9C

/-- The mode after a character that follows the escape character. -/
def afterEscape (c : Char) : Mode :=
  if c == '[' then .control
  else if c == ']' then .command
  else if c == 'P' then .device
  else if c == 'X' || c == '^' || c == '_' then .string
  else if within 0x20 0x2F c then .escapedMore
  else if within 0x30 0x7E c then .plain
  else .escaped

/-- The mode after a character of a device string that comes before its contents. Parameters that
make no sense leave only the string to be passed over. -/
def afterDevice (mode : Mode) (c : Char) : Mode :=
  if within 0x40 0x7E c then .string
  else if within 0x20 0x2F c then .deviceMore
  else if within 0x30 0x3F c then
    if mode == .deviceMore || (mode == .deviceParameters && within 0x3C 0x3F c) then .string
    else .deviceParameters
  else mode

/-- The mode after a character that is not printed. -/
def after (mode : Mode) (c : Char) : Mode :=
  if c == escape then .escaped
  else if isCancel c then .plain
  else
    match mode with
    | .plain => .plain
    | .escaped => afterEscape c
    | .escapedMore => if within 0x30 0x7E c then .plain else .escapedMore
    | .control => if within 0x40 0x7E c then .plain else .control
    | .command => if c == '\x07' then .plain else .command
    | .device | .deviceParameters | .deviceMore => afterDevice mode c
    | .string => if endsString c then .plain else .string

/-- Whether a run of printed characters starts with `c`. -/
def startsRun (mode : Mode) (c : Char) : Bool :=
  match mode with
  | .plain => isPrinted c
  | .escaped | .escapedMore | .control => isLayout c
  | _ => false

/-- The mode after a printed character. -/
def afterPrinted (mode : Mode) (c : Char) : Mode :=
  if isWide c then .plain else mode

/-- The printed characters of a text that is read from `mode` on; `running` says whether the
character before it was printed. -/
def stripFrom (mode : Mode) (running : Bool) : List Char → List Char
  | [] => []
  | c :: rest =>
      if (running && isPrinted c) || startsRun mode c then
        c :: stripFrom (afterPrinted mode c) true rest
      else stripFrom (after mode c) false rest

/-- The text without escape sequences and without control characters other than layout. -/
def strip (text : String) : String :=
  String.ofList (stripFrom .plain false text.toList)

end EventChains.Text.Ansi
