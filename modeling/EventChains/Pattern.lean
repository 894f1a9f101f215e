import EventChains.Event
import EventChains.Text.Blank

/-!
# Patterns

A pattern is a sequence of tokens. `name+` stands for the begin of the duration `name`, `name-` for
its end, and `*` for a run of other events between two named tokens. A name is a text without the
three marks; blanks around names and tokens mean nothing. A mark `+` or `-` directly after a
wildcard is ignored. A pattern is not empty, starts and ends with a named token, and has no two
wildcards side by side.

`Pattern.compile` reads a pattern in one pass over its characters, and `Pattern.render` writes its
canonical text.
-/

namespace EventChains

open EventChains.Text

/-- The end of a duration that a named token stands for. -/
inductive Edge where
  | opening
  | closing
  deriving DecidableEq, Repr

namespace Edge

/-- The phase of the events at an edge. -/
def phase : Edge → Phase
  | opening => .spanBegin
  | closing => .spanEnd

/-- The mark that follows a name. -/
def mark : Edge → Char
  | opening => '+'
  | closing => '-'

/-- The edge with a mark. -/
def ofMark? (c : Char) : Option Edge :=
  if c = '+' then some opening else if c = '-' then some closing else none

end Edge

/-- One token of a pattern. -/
inductive Token where
  | named (name : String) (edge : Edge)
  | wildcard
  deriving DecidableEq, Repr

/-- The canonical text of a token. -/
def Token.render : Token → String
  | named name edge => name.push edge.mark
  | wildcard => "*"

/-- Why a text is no pattern. Offsets count UTF-8 bytes. -/
inductive PatternFault where
  | empty
  /-- A name stands before a wildcard without a mark. -/
  | unmarkedName (name : String)
  | redundantWildcard (offset : Nat)
  /-- A mark has no name before it. -/
  | missingName (mark : Char) (offset : Nat)
  /-- A name stands at the end without a mark. -/
  | unmarkedEnd (name : String)
  | leadingWildcard
  | trailingWildcard
  | noTokens
  deriving DecidableEq, Repr

/-- A fault in words. -/
def PatternFault.reason : PatternFault → String
  | empty => "pattern is empty"
  | unmarkedName name => s!"event name `{name}` must be followed by `+` or `-`"
  | redundantWildcard offset => s!"redundant wildcard at offset {offset}"
  | missingName mark offset => s!"`{mark}` at offset {offset} has no event name"
  | unmarkedEnd name => s!"event name `{name}` at the end must be followed by `+` or `-`"
  | leadingWildcard => "pattern cannot start with a wildcard"
  | trailingWildcard => "pattern cannot end with a wildcard"
  | noTokens => "pattern has no tokens"

/-- A compiled pattern. -/
structure Pattern where
  tokens : List Token
  deriving DecidableEq, Repr

namespace Pattern

/-- What the characters of a pattern read so far amount to. -/
structure Scan where
  /-- The tokens so far, the last one first. -/
  tokens : List Token := []
  /-- The characters since the last mark or wildcard, the last one first. -/
  pending : List Char := []
  /-- Whether the last token is a wildcard that no mark has followed. -/
  openWildcard : Bool := false
  /-- The bytes read. -/
  offset : Nat := 0
  deriving Repr

namespace Scan

/-- The name that a mark at this place would end. -/
def name (scan : Scan) : List Char :=
  trim scan.pending.reverse

/-- Reads a wildcard. -/
def addWildcard (scan : Scan) : Except PatternFault Scan :=
  if !scan.name.isEmpty then .error (.unmarkedName (String.ofList scan.name))
  else if scan.tokens.head? = some .wildcard then .error (.redundantWildcard scan.offset)
  else .ok { scan with tokens := .wildcard :: scan.tokens, pending := [], openWildcard := true }

/-- Reads a mark: it ends a name, or is ignored after a wildcard. -/
def addMark (scan : Scan) (edge : Edge) : Except PatternFault Scan :=
  if !scan.name.isEmpty then
    .ok { scan with
      tokens := .named (String.ofList scan.name) edge :: scan.tokens
      pending := []
      openWildcard := false }
  else if scan.openWildcard then .ok { scan with pending := [], openWildcard := false }
  else .error (.missingName edge.mark scan.offset)

/-- Reads one character. -/
def add (scan : Scan) (c : Char) : Except PatternFault Scan := do
  let read ←
    if c = '*' then scan.addWildcard
    else
      match Edge.ofMark? c with
      | some edge => scan.addMark edge
      | none => .ok { scan with pending := c :: scan.pending }
  .ok { read with offset := scan.offset + c.utf8Size }

/-- The pattern of a whole text. -/
def finish (scan : Scan) : Except PatternFault Pattern :=
  if !scan.name.isEmpty then .error (.unmarkedEnd (String.ofList scan.name))
  else if scan.tokens.getLast? = some .wildcard then .error .leadingWildcard
  else if scan.tokens.head? = some .wildcard then .error .trailingWildcard
  else if scan.tokens.isEmpty then .error .noTokens
  else .ok ⟨scan.tokens.reverse⟩

end Scan

/-- Reads a pattern; the leftmost fault is reported. -/
def compile (source : String) : Except PatternFault Pattern := do
  if source.toList.all isBlank then .error .empty
  else
    let scan ← source.toList.foldlM Scan.add {}
    scan.finish

/-- The canonical text: the tokens one after the other, without blanks. -/
def render (pattern : Pattern) : String :=
  String.join (pattern.tokens.map Token.render)

/-- The names in a pattern, in token order. -/
def names (pattern : Pattern) : List String :=
  pattern.tokens.filterMap fun
    | .named name _ => some name
    | .wildcard => none

end Pattern

end EventChains
