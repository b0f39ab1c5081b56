/-!
# Files

What computes see of files is a `FileStore`: the outcome of reading any path, and what hinders
writing one. A `Directory` holds files in memory.

* `Path.extension?`, `Path.fileName?`: the parts of a path.
* **`Directory.store`**: look-up by path, with `.` and doubled separators skipped.
-/

namespace PixelFlow

namespace Path

/-- The parts of a path between separators. -/
def parts (path : String) : List String := path.splitOn "/"

/-- The last part of a path unless it names a directory by dots. -/
def fileName? (path : String) : Option String :=
  match ((parts path).filter fun s => s ≠ "" ∧ s ≠ ".").getLast? with
  | some ".." => none
  | name => name

/-- The text after the last dot of the file name; a name that starts with its only dot has none. -/
def extension? (path : String) : Option String := do
  let name := (← fileName? path).toList.reverse
  let after := name.takeWhile (· != '.')
  if after.length + 1 < name.length then some (String.ofList after.reverse) else none

end Path

/-- The outcomes of reading and writing files, by path. -/
structure FileStore where
  /-- The bytes of a file, or the reason why it cannot be read. -/
  read : String → Except String (List UInt8)
  /-- The reason why a path cannot be written, if there is one. -/
  refuses : String → Option String

namespace FileStore

def notFound : String := "No such file or directory (os error 2)"

def notADirectory : String := "Not a directory (os error 20)"

def isADirectory : String := "Is a directory (os error 21)"

def nameTooLong : String := "File name too long (os error 36)"

def hasNul : String := "file name contained an unexpected NUL byte"

end FileStore

/-- A directory held in memory: its files by their path from it, in parts. -/
structure Directory where
  files : List (List String × List UInt8)
deriving DecidableEq, Repr

namespace Directory

open FileStore

/-- The parts of a path by which files are told apart. -/
def key (path : String) : List String := (Path.parts path).filter fun s => s ≠ "" ∧ s ≠ "."

/-- The directory that holds the given files; of two with one path the first counts. -/
def ofList (files : List (String × List UInt8)) : Directory :=
  ⟨files.map fun (path, bytes) => (key path, bytes)⟩

def contains (d : Directory) (path : String) : Bool := d.files.any (·.1 == key path)

def erase (d : Directory) (path : String) : Directory := ⟨d.files.filter (·.1 != key path)⟩

/-- Put a file in place of any other one of its path. -/
def write (d : Directory) (path : String) (bytes : List UInt8) : Directory :=
  ⟨(key path, bytes) :: (d.erase path).files⟩

/-! ## Paths in a directory -/

/-- Where a path leads. -/
inductive Place
  | file (bytes : List UInt8)
  | directory
  | nowhere (reason : String)

/-- Follow the parts of a path from the place with path `here`, in reverse. -/
def follow (d : Directory) (here : List String) : List String → Place
  | [] => .directory
  | part :: rest =>
    if part = "" ∨ part = "." then d.follow here rest
    else if part = ".." then
      if here = [] then .nowhere notFound else d.follow here.tail rest
    else if 255 < part.utf8ByteSize then .nowhere nameTooLong
    else
      let there := (part :: here).reverse
      match d.files.find? (·.1 == there) with
      | some (_, bytes) => if rest = [] then .file bytes else .nowhere notADirectory
      | none =>
        if d.files.any fun f => there.isPrefixOf f.1 then d.follow (part :: here) rest
        else .nowhere notFound

/-- Why a path leads nowhere, whatever files there are. Paths from the root are none of a
directory. -/
def pathFault? (path : String) : Option String :=
  if path.toList.any (· == '\x00') then some hasNul
  else if path = "" ∨ path.startsWith "/" then some notFound
  else if 4096 ≤ path.utf8ByteSize then some nameTooLong
  else none

/-- Where a path leads. -/
def locate (d : Directory) (path : String) : Place :=
  match pathFault? path with
  | some reason => .nowhere reason
  | none => d.follow [] (Path.parts path)

/-- What hinders writing a file: it need not exist, but its directory must. A path that ends in a
separator or in dots is one of a directory. -/
def hindrance (d : Directory) (path : String) : Option String :=
  match pathFault? path with
  | some reason => some reason
  | none =>
    let parts := Path.parts path
    let (slashes, named) := parts.reverse.span (· == "")
    match d.follow [] named.tail.reverse with
    | .nowhere reason => some reason
    | .file _ => some notADirectory
    | .directory =>
      if slashes ≠ [] ∨ named.head? = some "." ∨ named.head? = some ".." then some isADirectory
      else match d.follow [] parts with
        | .file _ => none
        | .directory => some isADirectory
        | .nowhere reason => if reason = notFound then none else some reason

/-- The directory as computes see it. -/
def store (d : Directory) : FileStore where
  read path :=
    match d.locate path with
    | .file bytes => .ok bytes
    | .directory => .error isADirectory
    | .nowhere reason => .error reason
  refuses := d.hindrance

end Directory

end PixelFlow
