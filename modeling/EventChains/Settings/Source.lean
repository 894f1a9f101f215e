import EventChains.Host
import EventChains.Path
import EventChains.Settings.Conversion
import EventChains.Settings.Place
import EventChains.Text.CodePoint
import EventChains.Text.Pieces
import EventChains.Toml.Document

/-!
# Where settings come from

Settings have defaults; a file changes them, and the environment changes them once more. The file
is the one that is given, which has to be there; or else the one that a variable names, or the
usual one in the user's configuration directory, if it is there.

An environment variable with the name `TRACECHAIN_` and a key, in any case and with `_` for `-`,
changes that key. A key with points in it leads further down. The value of the variable is a truth
value, an integer or a number if it reads as one, and a text otherwise.
-/

namespace EventChains.Settings

open EventChains.Text

/-! ## The environment -/

/-- What the names of variables that change settings start with, in small letters. -/
def variableMark : List Char := "tracechain_".toList

/-- The small letter for a letter of a key, and any other character itself. Keys have only letters
of ASCII, and the Kelvin sign is the one further character with a small letter among these. -/
def smallLetter (c : Char) : Char :=
  if c = '\u212a' then 'k' else c.toLower

/-- A character between the words of a key. -/
def isWordEnd (c : Char) : Bool :=
  c == '_' || c == '-' || c == ' '

/-- Whether one word goes on from `a` to `b`. Letters and digits never share a word. -/
def sharesWord (a b : Char) : Bool :=
  isWordEnd a == isWordEnd b && !(a.isAlpha && b.isDigit) && !(a.isDigit && b.isAlpha)

/-- Words with hyphens between them. -/
def hyphenated (text : List Char) : List Char :=
  let words := (text.splitBy sharesWord).filter fun run => !run.any isWordEnd
  ['-'].intercalate words

/-- The key that a variable changes. Between points, each part of it has words of its own. -/
def keyOf? (name : String) : Option String := do
  let key ← variableMark.isPrefixOf? (name.toList.map smallLetter)
  some (String.ofList (['.'].intercalate ((pieces '.' key).map hyphenated)))

/-- What the value of a variable says. -/
def readValue (value : String) : Tree :=
  let word := value.toLower
  if word = "true" then .flag true
  else if word = "false" then .flag false
  else
    match readInt64? value.toList, Decimal.read? value.toList with
    | some n, _ => .whole n
    | none, some x => .real x
    | none, none => .text value

/-- What the environment says about settings. -/
def ofEnvironment (environment : Environment) : Fields :=
  environment.filterMap fun (name, value) => (keyOf? name).map (·, readValue value)

/-! ## The file -/

/-- The extension of a document. -/
def extension : List Char := "toml".toList

/-- Whether a path names a document. -/
def isDocument (path : List Char) : Bool :=
  Path.extension? path == some extension

/-- The document that a path without its extension names. An extension of another kind is kept: a
second one after it is what makes room. -/
def documentOf? (path : List Char) : Option (List Char) :=
  if (Path.extension? path).isSome then
    Path.withExtension? extension (path ++ ".placeholder".toList)
  else Path.withExtension? extension path

/-- The usual place of the file in a configuration directory. -/
def usualFile (directory : List Char) : String :=
  String.ofList (Path.join directory "tracechain/config.toml".toList)

/-- The usual configuration directory of a user. -/
def usualDirectory (home : String) : List Char :=
  Path.join home.toList ".config".toList

/-- The configuration directory that the environment leads to. The one that a variable names is
taken only if its path is absolute. A user whose home has an empty path has none. -/
def configDirectory? (environment : Environment) : Option (List Char) :=
  let named := (environment.get? "XDG_CONFIG_HOME").map String.toList
  let home := (environment.get? "HOME").filter (!·.isEmpty)
  named.filter Path.isAbsolute <|> home.map usualDirectory

/-- The file that the environment leads to. -/
def usualPath? (environment : Environment) : Option String :=
  environment.get? "TRACECHAIN_CONFIG_PATH" <|> (configDirectory? environment).map usualFile

/-- What a file says. A byte order mark at its start is no part of the document, which may start
with one of its own. -/
def readDocument (path contents : String) : Except SettingsFault Fields :=
  match Toml.read? (String.ofList (dropOrderMark contents.toList)) with
  | some fields => .ok (Tree.ofFields fields)
  | none => .error (.malformed path)

variable {m : Type → Type} [Monad m]

/-- Reads the file at a path that has to lead to one; the extension may be left out. The file is
looked for by its absolute path, which must not be too long either. -/
def readSource (host : Host m) (path : String) : m (Except SettingsFault Fields) := do
  let full := Path.join (← host.directory).toList path.toList
  let there ← host.isFile (String.ofList full)
  if there && !isDocument full then return .error (.notDocument (String.ofList full))
  match if there then some full else documentOf? full with
  | none => return .error (.noFile path)
  | some found =>
      let found := String.ofList found
      match ← host.readFile found with
      | .ok contents => return readDocument found contents
      | .error .notText => return .error (.unreadable found FileFault.notText.reason)
      | .error _ => return .error (.noFile path)

/-- What the file says; without a file that is nothing. -/
def readFile (host : Host m) : (given : Option String) → m (Except SettingsFault Fields)
  | some path => readSource host path
  | none => do
      match usualPath? host.environment with
      | none => return .ok []
      | some path => if ← host.isThere path then readSource host path else return .ok []

/-! ## All sources -/

/-- The settings that come from a file and the environment. What the environment says is laid over
what the file says. -/
def ofSources (file environment : Fields) : Except SettingsFault Settings := do
  let settings ← ofFields ((Fields.assignAll [] file).assignAll environment)
  settings.check
  return settings

/-- The settings on a host; `given` is the file that has to be there. -/
def load (host : Host m) (given : Option String) : m (Except SettingsFault Settings) := do
  let file ← readFile host given
  return do ofSources (← file) (ofEnvironment host.environment)

end EventChains.Settings
