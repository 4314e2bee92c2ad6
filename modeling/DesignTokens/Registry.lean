import DesignTokens.Error
import DesignTokens.Token
import Std.Data.HashMap

/-!
# The token registry

A registry holds tokens in the order in which their keys were first added, one token for each file
and name. Each token has a slot; the slot of a removed token stays empty. Two indexes find the slot
of a key and the slots of a name. `Registry.toList` is the list that the registry stands for.
-/

namespace DesignTokens

/-- What identifies a token in the registry: tokens of one name in different files are different. -/
structure TokenKey where
  filePath : String
  name : String
deriving DecidableEq, Repr, Hashable

/-- The key of a token. -/
def Token.key (t : Token) : TokenKey :=
  ⟨t.filePath, t.name⟩

/-- A store of tokens. -/
structure Registry where
  /-- The tokens in the order of their keys' first additions. -/
  slots : Array (Option Token)
  /-- The slot of each key. -/
  index : Std.HashMap TokenKey Nat
  /-- The slots of each name, the oldest first. -/
  named : Std.HashMap String (List Nat)

namespace Registry

/-- The registry without tokens. -/
def empty : Registry :=
  { slots := #[], index := {}, named := {} }

instance : Inhabited Registry := ⟨empty⟩

/-- The tokens in order. -/
def toList (r : Registry) : List Token :=
  r.slots.toList.filterMap id

/-- The token in a slot. -/
def slot? (r : Registry) (i : Nat) : Option Token :=
  (r.slots[i]?).join

/-- Puts a token under its key: in the key's slot, or in a new slot at the end. -/
def put (r : Registry) (t : Token) : Registry :=
  match r.index[t.key]? with
  | some i => { r with slots := r.slots.setIfInBounds i (some t) }
  | none =>
    let i := r.slots.size
    { slots := r.slots.push (some t)
      index := r.index.insert t.key i
      named := r.named.insert t.name (r.named.getD t.name [] ++ [i]) }

/-- Empties the slot of a key. -/
def erase (r : Registry) (k : TokenKey) : Registry :=
  match r.index[k]? with
  | none => r
  | some i =>
    { slots := r.slots.setIfInBounds i none
      index := r.index.erase k
      named := r.named.insert k.name ((r.named.getD k.name []).filter (· ≠ i)) }

/-- Adds a token; it must have a name. -/
def add (r : Registry) (t : Token) : Except Error Registry :=
  if t.name.isEmpty then .error (.unnamedToken t.filePath) else .ok (r.put t)

/-- The token of a file and a name. -/
def qualified? (r : Registry) (name filePath : String) : Option Token :=
  (r.index[(⟨filePath, name⟩ : TokenKey)]?).bind r.slot?

/-- The name that a query means: points count as hyphens, and one pair of leading hyphens is
dropped. -/
def queryName (query : String) : String :=
  let name := Text.replaceChar '.' '-' query
  (Text.afterStart? "--" name).getD name

/-- Finds a token by name, dotted path or CSS variable. A token without a file that bears the exact
name comes first, then the oldest token with the name that the query means, then the oldest with
the CSS variable. -/
def find? (r : Registry) (query : String) : Option Token :=
  match r.qualified? query "" with
  | some t => some t
  | none =>
    match (r.named.getD (queryName query) []).head?.bind r.slot? with
    | some t => some t
    | none => r.toList.find? fun t => t.cssVariable = query

/-- The tokens of a version. -/
def ofVersion (r : Registry) (version : Version) : List Token :=
  r.toList.filter fun t => t.version = version

/-- The tokens of a file. -/
def ofFile (r : Registry) (filePath : String) : List Token :=
  r.toList.filter fun t => t.filePath = filePath

/-- The tokens whose names start with a text. -/
def startingWith (r : Registry) (start : String) : List Token :=
  r.toList.filter fun t => Text.startsWith start t.name

/-- Removes a token that has no file. -/
def remove (r : Registry) (name : String) : Except Error Registry :=
  if r.index.contains ⟨"", name⟩ then .ok (r.erase ⟨"", name⟩) else .error (.tokenNotFound name)

/-- Removes the tokens of a file, and tells how many there were. -/
def removeFile (r : Registry) (filePath : String) : Registry × Nat :=
  let own := r.ofFile filePath
  (own.foldl (fun r t => r.erase t.key) r, own.length)

/-- The number of tokens. -/
def size (r : Registry) : Nat :=
  r.index.size

/-- Puts a text into a sorted list, if it is not there. -/
def insertSorted (s : String) : List String → List String
  | [] => [s]
  | t :: rest =>
    if s = t then t :: rest else if s < t then s :: t :: rest else t :: insertSorted s rest

/-- The files that tokens come from, sorted, each once. -/
def sourceFiles (r : Registry) : List String :=
  (r.toList.filter fun t => !t.filePath.isEmpty).foldl
    (fun files t => insertSorted t.filePath files) []

/-- The version that all tokens of a file have; unknown if there are none or if they differ. -/
def fileVersion (r : Registry) (filePath : String) : Version :=
  match r.ofFile filePath with
  | [] => .unknown
  | t :: rest => if rest.all fun u => u.version = t.version then t.version else .unknown

/-- The registry of a list of tokens. -/
def ofList (tokens : List Token) : Registry :=
  tokens.foldl put empty

end Registry

end DesignTokens
