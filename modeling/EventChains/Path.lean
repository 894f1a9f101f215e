/-!
# Paths

A path is a text of names with strokes between them. Its file name is the last of them; strokes and
points after it, which stand for the directory itself, do not count. The extension of a name is
what follows its last point, unless that point starts the name. A path that does not start with a
stroke goes on from a directory, and is joined to it by one.
-/

namespace EventChains.Path

/-- A path, from its end on, without the strokes and points there that name no file. -/
def dropSelf : List Char → List Char
  | '/' :: text => dropSelf text
  | '.' :: '/' :: text => dropSelf text
  | text => text

/-- Whether two paths are the same apart from the strokes and points at their ends. -/
def isSame (path other : List Char) : Bool :=
  dropSelf path.reverse == dropSelf other.reverse

/-- Whether a path starts at the root. -/
def isAbsolute (path : List Char) : Bool :=
  path.head? == some '/'

/-- The path that goes on from a directory; one that starts at the root stays as it is. A stroke
comes between them, unless the directory ends in one or has an empty path. -/
def join (directory path : List Char) : List Char :=
  if isAbsolute path then path
  else
    match directory.getLast? with
    | none | some '/' => directory ++ path
    | some _ => directory ++ '/' :: path

/-- Splits a path into what comes before its file name, and the name; what follows the name is left
out. -/
def splitName? (path : List Char) : Option (List Char × List Char) :=
  let ending := dropSelf path.reverse
  let name := (ending.takeWhile (· ≠ '/')).reverse
  if name = [] || name = ['.'] || name = ['.', '.'] then none
  else some ((ending.dropWhile (· ≠ '/')).reverse, name)

/-- Splits a name into what comes before its last point, and its extension. -/
def splitPoint? (name : List Char) : Option (List Char × List Char) :=
  let extension := (name.reverse.takeWhile (· ≠ '.')).reverse
  match name.reverse.dropWhile (· ≠ '.') with
  | [] | [_] => none
  | _ :: stem => some (stem.reverse, extension)

/-- The extension of the file that a path names. -/
def extension? (path : List Char) : Option (List Char) := do
  let (_, name) ← splitName? path
  let (_, extension) ← splitPoint? name
  some extension

/-- The path with another extension, which also stands for none. -/
def withExtension? (extension path : List Char) : Option (List Char) := do
  let (directory, name) ← splitName? path
  let stem := (splitPoint? name).elim name Prod.fst
  some (directory ++ stem ++ '.' :: extension)

end EventChains.Path
