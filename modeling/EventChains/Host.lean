/-!
# Hosts

A host is where a command runs: it has environment variables, files and a standard input. What a
command does is written once for every host, in the host's own monad.
-/

namespace EventChains

/-- Why a file cannot be read, made or written. -/
inductive FileFault where
  | absent
  | directory
  /-- Something on the way to the file is no directory. -/
  | notDirectory
  /-- The path, or a name in it, is too long. -/
  | tooLong
  /-- The device takes nothing more. -/
  | full
  /-- There is nothing behind the device. -/
  | noDevice
  /-- The contents are no text. -/
  | notText
  | other (reason : String)
  deriving DecidableEq, Repr

/-- A fault in words. -/
def FileFault.reason : FileFault → String
  | absent => "No such file or directory (os error 2)"
  | directory => "Is a directory (os error 21)"
  | notDirectory => "Not a directory (os error 20)"
  | tooLong => "File name too long (os error 36)"
  | full => "No space left on device (os error 28)"
  | noDevice => "No such device or address (os error 6)"
  | notText => "stream did not contain valid UTF-8"
  | other reason => reason

/-- The values of environment variables, by their names. -/
abbrev Environment := List (String × String)

/-- The value of an environment variable. -/
def Environment.get? (environment : Environment) (name : String) : Option String :=
  environment.lookup name

/-- Where a command runs. -/
structure Host (m : Type → Type) where
  environment : Environment
  /-- The absolute path of the directory where commands run. -/
  directory : m String
  readInput : m (Except FileFault String)
  /-- Whether a path leads to a file; a device is none. -/
  isFile : (path : String) → m Bool
  readFile : (path : String) → m (Except FileFault String)
  /-- Makes a file with some contents, also in place of one that is there. -/
  writeFile : (path : String) → (contents : String) → m (Except FileFault Unit)

namespace Host

variable {m : Type → Type} (host : Host m)

/-- Makes a file empty, also one that is there. -/
def createFile (path : String) : m (Except FileFault Unit) :=
  host.writeFile path ""

/-- Whether a path leads to anything. -/
def isThere [Monad m] (path : String) : m Bool := do
  match ← host.readFile path with
  | .error .absent | .error .notDirectory | .error .tooLong => return false
  | _ => return true

end Host

end EventChains
