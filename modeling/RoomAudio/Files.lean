import RoomAudio.Text.Blank

/-!
# Files

A tree of files and directories as a value, and the paths into it. A path is followed part by part
from the root or from the working directory, and every part but the last one has to be a directory.
Permissions and links are left out.

## Main definitions

* `Files` — the tree.
* `Files.read`, `Files.write`, `Files.createDirectories` — the operations, with their faults.
* `Files.join`, `Files.expandHome` — paths as texts.
-/

namespace RoomAudio

inductive FileFault where
  | notFound
  | exists
  | notDirectory
  | isDirectory
  /-- What was read is no text. -/
  | notText
  deriving DecidableEq, Repr

def FileFault.message : FileFault → String
  | .notFound => "No such file or directory (os error 2)"
  | .exists => "File exists (os error 17)"
  | .notDirectory => "Not a directory (os error 20)"
  | .isDirectory => "Is a directory (os error 21)"
  | .notText => "stream did not contain valid UTF-8"

/-- The names on the way from the root to a place. -/
abbrev Place := List String

inductive Entry where
  | file (bytes : List UInt8)
  | directory
  deriving DecidableEq, Repr

structure Files where
  entries : List (Place × Entry) := []
  current : Place := []
  deriving DecidableEq, Repr

namespace Files

/-- What stands at a place. The root is a directory. -/
def entry? (f : Files) (place : Place) : Option Entry :=
  if place = [] then some .directory else f.entries.lookup place

def put (f : Files) (place : Place) (entry : Entry) : Files :=
  { f with entries := (place, entry) :: f.entries.filter (·.1 ≠ place) }

/-- Puts something at a place, and directories above it. -/
def mount (f : Files) (place : Place) (entry : Entry) : Files :=
  ((List.range place.length).foldl (fun f n =>
    if (f.entry? (place.take n)).isSome then f else f.put (place.take n) .directory) f).put
      place entry

def isDirectory (f : Files) (place : Place) : Bool := f.entry? place == some .directory

def step (f : Files) (place : Place) (part : String) : Except FileFault Place :=
  match f.entry? place with
  | none => .error .notFound
  | some (.file _) => .error .notDirectory
  | some .directory =>
    if part = "." then .ok place
    else if part = ".." then .ok place.dropLast
    else .ok (place ++ [part])

def walk (f : Files) (place : Place) (parts : List String) : Except FileFault Place :=
  parts.foldlM f.step place

def parts (path : String) : List String :=
  ((Text.splitOn (· == '/') path.toList).filter (!·.isEmpty)).map String.ofList

def isAbsolute (path : String) : Bool := path.toList.head? == some '/'

def endsInSlash (path : String) : Bool := path.toList.getLast? == some '/'

def start (f : Files) (path : String) : Place := if isAbsolute path then [] else f.current

/-- The place of a path, whether or not something stands there. -/
def locate (f : Files) (path : String) : Except FileFault Place :=
  if path.isEmpty then .error .notFound
  else f.walk (f.start path) (parts path ++ if endsInSlash path then ["."] else [])

def read (f : Files) (path : String) : Except FileFault (List UInt8) := do
  match f.entry? (← f.locate path) with
  | none => throw .notFound
  | some .directory => throw .isDirectory
  | some (.file bytes) => return bytes

def write (f : Files) (path : String) (bytes : List UInt8) : Except FileFault Files := do
  if path.isEmpty then throw .notFound
  let place ← f.walk (f.start path) (parts path)
  if endsInSlash path || f.isDirectory place then throw .isDirectory
  return f.put place (.file bytes)

/-- Creates a directory. The parts of its path are given from the last one on. -/
def createDirectory (f : Files) (start : Place) : List String → Except FileFault Files
  | [] => .error .exists
  | part :: parents => do
    let parent ← f.walk start parents.reverse
    let place ← f.step parent part
    if part = "." ∨ part = ".." then throw .exists
    match f.entry? place with
    | some _ => throw .exists
    | none => return f.put place .directory

def leadsToDirectory (f : Files) (start : Place) (parts : List String) : Bool :=
  match f.walk start parts with
  | .ok place => f.isDirectory place
  | .error _ => false

/-- What is there after a directory could not be created; it may exist already. -/
def keepDirectory (f : Files) (start : Place) (parts : List String) (fault : FileFault) :
    Option FileFault × Files :=
  (if f.leadsToDirectory start parts then none else some fault, f)

/-- Creates a directory and those above it. The parts of its path are given from the last one on.
What was created before a fault stays. -/
def createAll (f : Files) (start : Place) : List String → Option FileFault × Files
  | [] => (none, f)
  | part :: parents =>
    match f.createDirectory start (part :: parents) with
    | .ok f => (none, f)
    | .error .notFound =>
      match f.createAll start parents with
      | (some fault, f) => (some fault, f)
      | (none, f) =>
        match f.createDirectory start (part :: parents) with
        | .ok f => (none, f)
        | .error fault => f.keepDirectory start (part :: parents).reverse fault
    | .error fault => f.keepDirectory start (part :: parents).reverse fault

/-- Creates the directory that a path leads into, and those above it. -/
def createDirectories (f : Files) (path : String) : Option FileFault × Files :=
  f.createAll (f.start path) ((parts path).filter (· ≠ ".")).dropLast.reverse

/-- Creates the directory of a file, if needed, and writes the file. -/
def save (f : Files) (path : String) (bytes : List UInt8) : Except FileFault Unit × Files :=
  match f.createDirectories path with
  | (some fault, f) => (.error fault, f)
  | (none, f) =>
    match f.write path bytes with
    | .ok f => (.ok (), f)
    | .error fault => (.error fault, f)

/-- A path that is taken to begin at another one. An absolute path stays as it is. -/
def join (base path : String) : String :=
  if isAbsolute path then path
  else if base.isEmpty || endsInSlash base then base ++ path
  else base ++ "/" ++ path

/-- A path in which a leading tilde stands for the home directory. Blank characters around the path
do not belong to it. -/
def expandHome (home path : String) : String :=
  let path := Text.trimChars path.toList
  match path with
  | ['~'] => home
  | '~' :: '/' :: rest => join home (String.ofList rest)
  | '~' :: '\\' :: rest => join home (String.ofList rest)
  | path => String.ofList path

end Files

end RoomAudio
