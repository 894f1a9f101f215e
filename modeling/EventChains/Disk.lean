import EventChains.Host
import EventChains.Text.Pieces

/-!
# Disks

A disk holds text files in memory, and `Disk.host` is a host that runs commands against it. A file
is known by its place: the names from the root down to it. Some places hold a device in place of a
file, and some are links, which stand for another place. A place is a directory if some file or
device, or the directory where commands run, lies at or below it; some directories are always
there. Names and paths have a greatest length.
-/

namespace EventChains

/-- The names from the root down to a file or a directory. -/
abbrev FilePlace := List String

/-- What can be read and written like a file, and is none. -/
inductive Device where
  /-- Loses what is written to it. Nothing is read from it. -/
  | sink
  /-- Refuses what is written to it. Nothing is read from it. -/
  | full
  /-- Gives the standard input. -/
  | input
  /-- Adds to the standard output. -/
  | output
  /-- Adds to the standard error output. -/
  | errors
  /-- Stands for the terminal of a command, which has none. -/
  | terminal
  deriving DecidableEq, Repr

/-- Files in memory, and the streams of a command. -/
structure Disk where
  files : List (FilePlace × String) := []
  /-- The directory where commands run. -/
  home : FilePlace := []
  input : Except FileFault String := .ok ""
  /-- What has been written to the device of the standard output. -/
  output : String := ""
  /-- What has been written to the device of the standard error output. -/
  errors : String := ""

namespace Disk

/-- The directories that are always there. -/
def directories : List FilePlace :=
  [["bin"], ["boot"], ["dev"], ["dev", "pts"], ["dev", "shm"], ["etc"], ["home"], ["lib"], ["mnt"],
    ["opt"], ["proc"], ["root"], ["run"], ["sbin"], ["srv"], ["sys"], ["tmp"], ["usr"], ["var"]]

/-- The place that a command has for itself. -/
def own : FilePlace :=
  ["proc", "self"]

/-- The places of all devices. The streams of a command are known by their numbers. -/
def devices : List (FilePlace × Device) :=
  [(["dev", "null"], .sink), (["dev", "zero"], .sink), (["dev", "random"], .sink),
    (["dev", "urandom"], .sink), (["dev", "full"], .full), (["dev", "tty"], .terminal),
    (own ++ ["fd", "0"], .input), (own ++ ["fd", "1"], .output), (own ++ ["fd", "2"], .errors)]

/-- The links, and where they lead. -/
def links (disk : Disk) : List (FilePlace × FilePlace) :=
  [(["dev", "fd"], own ++ ["fd"]), (["dev", "stdin"], own ++ ["fd", "0"]),
    (["dev", "stdout"], own ++ ["fd", "1"]), (["dev", "stderr"], own ++ ["fd", "2"]),
    (own ++ ["cwd"], disk.home), (own ++ ["root"], [])]

/-- The place that a link leads to; any other place leads to itself. -/
def follow (disk : Disk) (place : FilePlace) : FilePlace :=
  (disk.links.lookup place).getD place

/-- The contents of a file. -/
def get? (disk : Disk) (place : FilePlace) : Option String :=
  disk.files.lookup place

/-- Whether a place is a directory. -/
def isDirectory (disk : Disk) (place : FilePlace) : Bool :=
  let isAbove (other : FilePlace) := place.isPrefixOf other && place != other
  place.isPrefixOf disk.home || directories.contains place || disk.files.any (isAbove ·.1) ||
    devices.any (isAbove ·.1)

/-- The fault of going on from a place that is no directory. -/
def faultAt (disk : Disk) (place : FilePlace) : FileFault :=
  if (disk.get? place).isSome || (devices.lookup place).isSome then .notDirectory else .absent

/-- The greatest number of bytes in a name. -/
def longestName : Nat := 255

/-- The greatest number of bytes in a path. -/
def longestPath : Nat := 4095

/-- Goes from a directory to the place that one part of a path names. An empty part stands for the
directory itself, as a point does. -/
def descend (disk : Disk) (place : FilePlace) (part : String) : Except FileFault FilePlace :=
  if disk.isDirectory place then
    if part = "" || part = "." then .ok place
    else if part = ".." then .ok place.dropLast
    else if longestName < part.utf8ByteSize then .error .tooLong
    else .ok (disk.follow (place ++ [part]))
  else .error (disk.faultAt place)

/-- The parts of a path, between its strokes. -/
def parts (path : List Char) : List String :=
  (Text.pieces '/' path).map String.ofList

/-- The place that a path leads to; nothing need be there. -/
def resolve (disk : Disk) (path : List Char) : Except FileFault FilePlace :=
  if path.isEmpty then .error .absent
  else if longestPath < (String.ofList path).utf8ByteSize then .error .tooLong
  else
    let start := if path.head? = some '/' then [] else disk.home
    (parts path).foldlM disk.descend start

/-- The path of the directory where commands run. -/
def directory (disk : Disk) : String :=
  "/" ++ "/".intercalate disk.home

/-- Whether a path leads to a file. -/
def isFile (disk : Disk) (path : String) : Bool :=
  match disk.resolve path.toList with
  | .ok place => (disk.get? place).isSome
  | .error _ => false

/-- Reads the file or the device that a path leads to. -/
def readFile (disk : Disk) (path : String) : Except FileFault String := do
  let place ← disk.resolve path.toList
  match devices.lookup place, disk.get? place with
  | some .input, _ => disk.input
  | some .terminal, _ => .error .noDevice
  | some _, _ => .ok ""
  | none, some contents => .ok contents
  | none, none => .error (if disk.isDirectory place then .directory else .absent)

/-- Whether a place is one of the system's own; nothing is made there. -/
def isSystem (place : FilePlace) : Bool :=
  ["proc"].isPrefixOf place && (devices.lookup place).isNone

/-- The place where a path makes a file. A path that ends in a stroke makes none; its last name is
not looked at. -/
def newPlace (disk : Disk) (path : String) : Except FileFault FilePlace := do
  let chars := path.toList
  if chars.getLast? = some '/' then
    let parent := ((chars.reverse.dropWhile (· = '/')).dropWhile (· ≠ '/')).reverse
    if longestPath < path.utf8ByteSize then .error .tooLong
    else if parent ≠ [] then discard (disk.resolve parent)
    .error .directory
  else
    let place ← disk.resolve chars
    if disk.isDirectory place then .error .directory
    else if isSystem place then .error .absent
    else if disk.isDirectory place.dropLast then .ok place
    else .error (disk.faultAt place.dropLast)

/-- Gives a file its contents, or writes them to a device. -/
def put (disk : Disk) (place : FilePlace) (contents : String) : Except FileFault Disk :=
  match devices.lookup place with
  | some .output => .ok { disk with output := disk.output ++ contents }
  | some .errors => .ok { disk with errors := disk.errors ++ contents }
  | some .full => if contents.isEmpty then .ok disk else .error .full
  | some .terminal => .error .noDevice
  | some _ => .ok disk
  | none => .ok { disk with files := (place, contents) :: disk.files.filter (·.1 != place) }

/-- Writes a file or to a device. -/
def writeFile (disk : Disk) (path contents : String) : Except FileFault Disk := do
  disk.put (← disk.newPlace path) contents

/-- Changes the disk; a fault leaves it as it is. -/
def change (action : Disk → Except FileFault Disk) : StateM Disk (Except FileFault Unit) := do
  match action (← get) with
  | .ok disk =>
      set disk
      return .ok ()
  | .error fault => return .error fault

/-- The host that runs commands against a disk. -/
def host (environment : Environment) : Host (StateM Disk) where
  environment := environment
  directory := return (← get).directory
  readInput := return (← get).input
  isFile path := return (← get).isFile path
  readFile path := return (← get).readFile path
  writeFile path contents := change (·.writeFile path contents)

end Disk

end EventChains
