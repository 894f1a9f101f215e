import EventChains.Command.Run

/-!
# The program

Runs a command line on the machine itself.
-/

namespace EventChains.Machine

/-- Whether a code is that of an error; some parts of the system give it as a negative number. -/
def isCode (error code : UInt32) : Bool :=
  code == error || code == -error

/-- What an error of the system means for a file. -/
def fileFault : IO.Error → FileFault
  | .noFileOrDirectory .. => .absent
  | error@(.inappropriateType _ code _) =>
      if isCode 21 code then .directory
      else if isCode 20 code then .notDirectory
      else .other (toString error)
  | error@(.invalidArgument _ code _) =>
      if isCode 36 code then .tooLong else .other (toString error)
  | error@(.resourceExhausted _ code _) =>
      if isCode 28 code then .full else .other (toString error)
  | error@(.noSuchThing _ code _) =>
      if isCode 6 code then .noDevice else .other (toString error)
  | error => .other (toString error)

/-- Does something with a file; an error is an answer. -/
def attempt (action : IO α) : IO (Except FileFault α) := do
  try return .ok (← action)
  catch error => return .error (fileFault error)

/-- The text that some bytes encode. -/
def decode (bytes : ByteArray) : Except FileFault String :=
  match String.fromUTF8? bytes with
  | some text => .ok text
  | none => .error .notText

/-- The name and the value of a variable that is written with a sign of equality. -/
def splitVariable (text : List Char) : String × String :=
  (String.ofList (text.takeWhile (· ≠ '=')), String.ofList (text.dropWhile (· ≠ '=')).tail)

/-- The environment variables of this program. -/
def readEnvironment : IO Environment := do
  match (← attempt (IO.FS.readBinFile "/proc/self/environ")).bind decode with
  | .ok text =>
      let runs := text.toList.splitBy fun a b => (a == '\x00') == (b == '\x00')
      return (runs.filter fun run => !run.contains '\x00').map splitVariable
  | .error _ => return []

/-- Reads a file or a device. -/
def readFile (path : String) : IO (Except FileFault String) := do
  return (← attempt (IO.FS.readBinFile path)).bind decode

/-- Whether a path leads to a file; a directory or a device is none. -/
def isFile (path : String) : IO Bool := do
  match ← attempt (do return (← (← IO.FS.realPath path).metadata).type) with
  | .ok .file => return true
  | _ => return false

/-- The machine as a host. -/
def host : IO (Host IO) := do
  let environment ← readEnvironment
  return {
    environment
    directory := return toString (← IO.currentDir)
    readInput := do
      return (← attempt (do (← IO.getStdin).readBinToEnd)).bind decode
    isFile
    readFile
    writeFile path contents := attempt (IO.FS.withFile path .write fun file => do
      file.putStr contents
      file.flush) }

end EventChains.Machine

open EventChains in
/-- Runs the command line and exits with its code. -/
def main (arguments : List String) : IO UInt32 := do
  let report ← Command.run (← Machine.host) arguments
  (← IO.getStdout).putStr report.output
  (← IO.getStderr).putStr report.errors
  return report.code.toUInt32
