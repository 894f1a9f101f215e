import EventChains.Text.Blank

/-!
# Pairs

The part of a trace line after its marker is a sequence of pairs `key=value`. A key is not empty
and has no blank in it. A value is either quoted, and then ends at the next quotation mark, or
plain, and then ends at the next space `U+0020` or at the end of the line; there are no escapes.
Blanks of any kind may stand before a key and at the end of the line, and after a quoted value
nothing need separate the next key.

`readPair` reads one pair and leaves the rest of the line, which is shorter
(`length_lt_of_readPair`); `readPairs` reads all of them.
-/

namespace EventChains.Log

open EventChains.Text

/-- A key with its value; a quoted value is always text. -/
structure Pair where
  key : List Char
  value : List Char
  quoted : Bool
  deriving DecidableEq, Repr

/-- Why a line is no sequence of pairs. -/
inductive PairFault where
  /-- The rest of the line has no `=`. -/
  | noEquals (rest : List Char)
  /-- The text before `=` is empty or has a blank in it. -/
  | invalidKey (key : List Char)
  | unclosedQuote (key : List Char)
  deriving DecidableEq, Repr

/-- A fault in words. -/
def PairFault.reason : PairFault → String
  | noEquals rest => s!"expected key=value, found `{String.ofList rest}`"
  | invalidKey key => s!"invalid key `{String.ofList key}`"
  | unclosedQuote key => s!"unterminated quote in value of `{String.ofList key}`"

/-- A text that can be a key. -/
def isKey (key : List Char) : Bool :=
  !key.isEmpty && !key.any isBlank

/-- Reads the value of `key` at the start of the text. -/
def readValue (key : List Char) : List Char → Except PairFault (Pair × List Char)
  | '"' :: text =>
      match text.dropWhile (· ≠ '"') with
      | [] => .error (.unclosedQuote key)
      | _ :: rest => .ok (⟨key, text.takeWhile (· ≠ '"'), true⟩, rest)
  | text => .ok (⟨key, text.takeWhile (· ≠ ' '), false⟩, text.dropWhile (· ≠ ' '))

/-- Reads the pair at the start of the text. -/
def readPair (text : List Char) : Except PairFault (Pair × List Char) :=
  match text.dropWhile (· ≠ '=') with
  | [] => .error (.noEquals text)
  | _ :: rest =>
      let key := text.takeWhile (· ≠ '=')
      if isKey key then readValue key rest else .error (.invalidKey key)

/-- A value leaves no longer a text. -/
theorem length_le_of_readValue {key text rest : List Char} {pair : Pair}
    (h : readValue key text = .ok (pair, rest)) : rest.length ≤ text.length := by
  unfold readValue at h
  split at h
  · rename_i text
    split at h
    · contradiction
    · rename_i hdrop
      cases h
      have := (List.dropWhile_sublist (· ≠ '"') (l := text)).length_le
      simp only [hdrop, List.length_cons] at this
      simp only [List.length_cons]
      omega
  · cases h
    exact (List.dropWhile_sublist (· ≠ ' ')).length_le

/-- A pair takes at least one character. -/
theorem length_lt_of_readPair {text rest : List Char} {pair : Pair}
    (h : readPair text = .ok (pair, rest)) : rest.length < text.length := by
  unfold readPair at h
  split at h
  · contradiction
  · rename_i hdrop
    have := (List.dropWhile_sublist (· ≠ '=') (l := text)).length_le
    simp only [hdrop, List.length_cons] at this
    dsimp only at h
    split at h
    · have := length_le_of_readValue h
      omega
    · contradiction

/-- Reads all pairs of a line; the first fault ends the reading. -/
def readPairs (line : List Char) : Except PairFault (List Pair) :=
  if (skipBlanks line).isEmpty then .ok []
  else
    match _h : readPair (skipBlanks line) with
    | .error fault => .error fault
    | .ok (pair, rest) => (readPairs rest).map (pair :: ·)
termination_by line.length
decreasing_by
  have := length_lt_of_readPair _h
  have := length_skipBlanks_le line
  omega

end EventChains.Log
