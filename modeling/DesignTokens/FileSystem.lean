import DesignTokens.Error
import DesignTokens.Path

/-!
# File systems

A file system is a tree of directories and files, with a directory in which relative paths start.
A path is followed segment by segment, each of which needs a directory to stand in; there are no
links, so the names met on the way are the canonical path.
-/

namespace DesignTokens

/-- What a directory holds under a name. -/
inductive Entry where
  | file (content : ByteArray)
  | directory (entries : List (String × Entry))
deriving Inhabited

namespace Entry

/-- Whether an entry is a directory. -/
def isDirectory : Entry → Bool
  | .directory _ => true
  | .file _ => false

/-- The entry under a name. -/
def child? (name : String) : List (String × Entry) → Option Entry
  | [] => none
  | (n, e) :: rest => if n = name then some e else child? name rest

/-- Puts an entry under a name. -/
def setChild (name : String) (entry : Entry) : List (String × Entry) → List (String × Entry)
  | [] => [(name, entry)]
  | (n, e) :: rest => if n = name then (n, entry) :: rest else (n, e) :: setChild name entry rest

/-- The entries of a directory; a file has none. -/
def entries : Entry → List (String × Entry)
  | .directory es => es
  | .file _ => []

/-- The entry at the end of a list of names. -/
def find? : List String → Entry → Option Entry
  | [], e => some e
  | name :: names, .directory es => (child? name es).bind (find? names)
  | _ :: _, .file _ => none

/-- Puts an entry at the end of a list of names; directories on the way are made. -/
def put (entry : Entry) : List String → Entry → Entry
  | [], _ => entry
  | name :: names, e =>
    let inner := (child? name e.entries).getD (.directory [])
    .directory (setChild name (put entry names inner) e.entries)

/-- Removes the entry at the end of a list of names. -/
def remove : List String → Entry → Entry
  | [], e => e
  | [name], e => .directory (e.entries.filter fun child => child.1 ≠ name)
  | name :: next :: names, e =>
    match child? name e.entries with
    | some inner => .directory (setChild name (remove (next :: names) inner) e.entries)
    | none => e

end Entry

/-- A tree of files with a current directory. -/
structure FileSystem where
  /-- The directory at the root. -/
  root : Entry
  /-- The names from the root to the current directory. -/
  current : List String

namespace FileSystem

/-- The file system without files. -/
def empty : FileSystem := ⟨.directory [], []⟩

/-- The longest name of an entry, in bytes. -/
def longestName : Nat := 255

/-- The longest path, in bytes. -/
def longestPath : Nat := 4095

/-- Follows one segment of a path from the entry at the end of `names`. -/
def step (fs : FileSystem) (names : List String) (segment : String) :
    Except FileFault (List String) :=
  match fs.root.find? names with
  | some (.directory entries) =>
    if segment = "" ∨ segment = "." then .ok names
    else if segment = ".." then .ok names.dropLast
    else if longestName < segment.utf8ByteSize then .error .nameTooLong
    else if (Entry.child? segment entries).isSome then .ok (names ++ [segment])
    else .error .notFound
  | _ => .error .notDirectory

/-- The names from the root to what a path leads to. -/
def resolve (fs : FileSystem) (path : String) : Except FileFault (List String) :=
  if path.toList.any fun c => c.toNat = 0 then .error .nulInPath
  else if path.isEmpty then .error .notFound
  else if longestPath < path.utf8ByteSize then .error .nameTooLong
  else (Text.split '/' path).foldlM fs.step (if Path.isAbsolute path then [] else fs.current)

/-- What a path leads to. -/
def entry? (fs : FileSystem) (path : String) : Option Entry :=
  match fs.resolve path with
  | .ok names => fs.root.find? names
  | .error _ => none

/-- Whether a path leads to a file. -/
def isFile (fs : FileSystem) (path : String) : Bool :=
  match fs.entry? path with
  | some (.file _) => true
  | _ => false

/-- The text of a file. -/
def readText (fs : FileSystem) (path : String) : Except FileFault String :=
  match fs.resolve path with
  | .error fault => .error fault
  | .ok names =>
    match fs.root.find? names with
    | some (.file content) =>
      match String.fromUTF8? content with
      | some text => .ok text
      | none => .error .notText
    | _ => .error .isDirectory

/-- The path with the names from the root on. -/
def canonical? (fs : FileSystem) (path : String) : Option String :=
  match fs.resolve path with
  | .ok names => some ("/" ++ Text.join "/" names)
  | .error _ => none

/-- Puts an entry under names from the root on. -/
def write (fs : FileSystem) (names : List String) (entry : Entry) : FileSystem :=
  { fs with root := Entry.put entry names fs.root }

/-- Removes the entry under names from the root on. -/
def remove (fs : FileSystem) (names : List String) : FileSystem :=
  { fs with root := Entry.remove names fs.root }

end FileSystem

end DesignTokens
