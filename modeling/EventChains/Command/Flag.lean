import EventChains.Text.Numeral

/-!
# Flags

A flag is written by its name after two hyphens, or by its letter after one. Letters may stand
together, as in `-vo out.json`. The value of a flag follows as the next argument, after a sign of
equality, or directly after its letter. `Argument.read` tells what one argument is.
-/

namespace EventChains.Command

open EventChains.Text

/-- What can be given to a command besides its log. -/
inductive Flag where
  | config
  | verbose
  | output
  | chainPid
  | pattern
  | label
  | unrestricted
  | help
  | version
  deriving DecidableEq, Repr

namespace Flag

/-- The name of a flag. -/
def name : Flag → String
  | config => "config"
  | verbose => "verbose"
  | output => "output"
  | chainPid => "chain-pid"
  | pattern => "pattern"
  | label => "label"
  | unrestricted => "unrestricted"
  | help => "help"
  | version => "version"

/-- The letter of a flag. -/
def letter? : Flag → Option Char
  | verbose => some 'v'
  | output => some 'o'
  | pattern => some 'p'
  | label => some 'l'
  | help => some 'h'
  | version => some 'V'
  | config | chainPid | unrestricted => none

/-- Whether a flag has a value. -/
def hasValue : Flag → Bool
  | config | output | chainPid | pattern | label => true
  | verbose | unrestricted | help | version => false

/-- Whether a flag takes this value: paths are not empty, and process ids are numbers. -/
def accepts : Flag → String → Bool
  | config, value | output, value => value != ""
  | chainPid, value => (readUInt64? value.toList).isSome
  | _, _ => true

end Flag

/-- A part of an argument that gives flags. -/
inductive Piece where
  | flag (flag : Flag) (value : String)
  /-- A flag whose value is the next argument. -/
  | awaiting (flag : Flag)
  | unknown
  deriving DecidableEq, Repr

/-- One argument. -/
inductive Argument where
  | operand (text : String)
  /-- All arguments after it are operands. -/
  | endOfFlags
  | flags (pieces : List Piece)
  deriving DecidableEq, Repr

namespace Argument

/-- The flag that is written by its name. -/
def readName (known : List Flag) (text : List Char) : Piece :=
  let name := String.ofList (text.takeWhile (· ≠ '='))
  match known.find? (·.name = name), text.dropWhile (· ≠ '=') with
  | none, _ => .unknown
  | some flag, [] => if flag.hasValue then .awaiting flag else .flag flag ""
  | some flag, _ :: value => if flag.hasValue then .flag flag (String.ofList value) else .unknown

/-- The flags that are written by their letters. -/
def readLetters (known : List Flag) : List Char → List Piece
  | [] => []
  | c :: rest =>
      match known.find? (·.letter? = some c) with
      | none => [.unknown]
      | some flag =>
          if flag.hasValue then
            match rest with
            | [] => [.awaiting flag]
            | '=' :: value | value => [.flag flag (String.ofList value)]
          else .flag flag "" :: readLetters known rest

/-- Tells what an argument is, where these flags are known. A single hyphen is an operand. -/
def read (known : List Flag) (argument : String) : Argument :=
  match argument.toList with
  | ['-', '-'] => .endOfFlags
  | '-' :: '-' :: text => .flags [readName known text]
  | ['-'] => .operand argument
  | '-' :: text => .flags (readLetters known text)
  | _ => .operand argument

/-- Whether an argument can be the value of the flag before it. -/
def isValue (argument : String) : Bool :=
  argument = "-" || argument.toList.head? != some '-'

end Argument

end EventChains.Command
