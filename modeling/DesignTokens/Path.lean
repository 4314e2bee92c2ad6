import DesignTokens.Text.Edit

/-!
# File paths

A path is a text with slashes. It stands for a list of components, in which empty segments and
points other than a leading one do not count; two paths are the same if their components are.
-/

namespace DesignTokens

namespace Path

/-- A component of a path. -/
inductive Component where
  /-- The slash at the start. -/
  | root
  /-- The point at the start. -/
  | current
  | parent
  | name (s : String)
deriving DecidableEq, Repr

namespace Component

/-- The component of a segment; empty segments and points have none. -/
def ofSegment? (segment : String) : Option Component :=
  if segment = "" ∨ segment = "." then none
  else if segment = ".." then some parent
  else some (name segment)

/-- The text of a component. -/
def text : Component → String
  | root => "/"
  | current => "."
  | parent => ".."
  | name s => s

/-- The kinds of components in their order. -/
def rank : Component → Nat
  | root => 0
  | current => 1
  | parent => 2
  | name _ => 3

/-- Whether a component comes before another: by kind, and names by their text. -/
def lt (a b : Component) : Bool :=
  a.rank < b.rank || (a.rank == b.rank && a.text < b.text)

end Component

/-- Whether a path starts at the root. -/
def isAbsolute (path : String) : Bool :=
  Text.startsWith "/" path

/-- The components of a path. -/
def components (path : String) : List Component :=
  let segments := Text.split '/' path
  let inner := segments.filterMap Component.ofSegment?
  if isAbsolute path then .root :: inner
  else if segments.head? = some "." then .current :: inner
  else inner

/-- Whether two paths have the same components. -/
def same (a b : String) : Bool :=
  components a = components b

/-- Whether the first list of components comes before the second or is the same. -/
def componentsLe : List Component → List Component → Bool
  | [], _ => true
  | _ :: _, [] => false
  | a :: as, b :: bs => if a = b then componentsLe as bs else a.lt b

/-- The order of paths by their components. -/
def le (a b : String) : Bool :=
  componentsLe (components a) (components b)

/-- The path of `path` inside `base`. An absolute path stays as it is. -/
def join (base path : String) : String :=
  if isAbsolute path then path
  else if base.isEmpty || Text.endsWith "/" base then base ++ path
  else base ++ "/" ++ path

/-- The last component, if it is a name. -/
def fileName? (path : String) : Option String :=
  match (components path).getLast? with
  | some (.name s) => some s
  | _ => none

/-- What follows the last point of a file name; a point at its start does not count. -/
def extension? (path : String) : Option String :=
  (fileName? path).bind fun name =>
    match (Text.split '.' name).reverse with
    | ending :: [start] => if start.isEmpty then none else some ending
    | ending :: _ :: _ :: _ => some ending
    | _ => none

end Path

end DesignTokens
