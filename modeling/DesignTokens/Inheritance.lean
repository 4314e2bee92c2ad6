import DesignTokens.Graph

/-!
# Inheritance between groups

A group may extend another: it then has a copy of each token of the parent group that it does not
define itself. Markers in the batch say which group extends which; only those of the release of
October 2025 count. Groups are dealt with in the order of the extension graph, so that a group
inherits what its parent has inherited.
-/

namespace DesignTokens

namespace Inheritance

/-- A group path as one text. -/
def groupName (path : List String) : String :=
  Text.join "/" path

/-- The segments of a group. -/
def segments (group : String) : List String :=
  Text.split '/' group

/-- A group and the group that it extends. -/
structure Extension where
  child : String
  parent : String
deriving DecidableEq, Repr

/-- Declares an extension; a group that extends another already now extends this one. -/
def declare (e : Extension) : List Extension → List Extension
  | [] => [e]
  | d :: rest => if d.child = e.child then e :: rest else d :: declare e rest

/-- The extension that a marker declares. -/
def ofMarker? (t : Token) : Option Extension :=
  if t.isExtendsMarker && t.version = .v2025_10 then
    some ⟨groupName t.path.dropLast, (Reference.pointerPath? t.value).getD t.value⟩
  else none

/-- The extensions that a batch declares, in the order of their first declaration. -/
def extensions (tokens : List Token) : List Extension :=
  (tokens.filterMap ofMarker?).foldl (fun all e => declare e all) []

/-- The graph of extensions: a child depends on its parent. -/
def graph (all : List Extension) : Graph :=
  all.foldl (fun g e => g.addDependency e.child e.parent) Graph.empty

/-- The paths that begin a path, without the empty one. -/
def leads : List String → List (List String)
  | [] => []
  | s :: rest => [s] :: (leads rest).map (s :: ·)

/-- Whether a path lies in a group, or is the group's own. -/
def inGroup (group : String) (path : List String) : Bool :=
  (leads path).any fun lead => groupName lead = group

/-- The tokens in a group. Markers are in no group. -/
def members (tokens : List Token) (group : String) : List Token :=
  tokens.filter fun t => !t.isExtendsMarker && inGroup group t.path

/-- The copy of a token under another path. -/
def moved (t : Token) (path : List String) : Token :=
  { t with name := Text.join "-" path, path := path }

/-- The paths, relative to a group, at which it has tokens. -/
def ownPaths (tokens : List Token) (group : String) : List (List String) :=
  let depth := (segments group).length
  ((members tokens group).filter fun t => depth < t.path.length).map fun t => t.path.drop depth

/-- What a child group inherits: the tokens of its parent that do not lie in the child and at whose
relative paths the child has none, moved to the child. -/
def inherited (tokens : List Token) (e : Extension) : List Token :=
  let child := segments e.child
  let depth := (segments e.parent).length
  let own := ownPaths tokens e.child
  ((members tokens e.parent).filter fun t =>
      depth < t.path.length && !child.isPrefixOf t.path && t.path.drop depth ∉ own).map
    fun t => moved t (child ++ t.path.drop depth)

/-- Adds what the groups inherit, one group after the other. -/
def inheritAll (all : List Extension) : (groups : List String) → List Token → List Token
  | [], tokens => tokens
  | group :: groups, tokens =>
    match all.find? fun e => e.child = group with
    | none => inheritAll all groups tokens
    | some e => inheritAll all groups (tokens ++ inherited tokens e)

/-- The batch followed by all that its groups inherit; a cycle of extensions is an error. -/
def expand (tokens : List Token) : Except Error (List Token) :=
  let all := extensions tokens
  match (graph all).order with
  | .error e => .error e
  | .ok groups => .ok (inheritAll all groups tokens)

end Inheritance

end DesignTokens
