import DesignTokens.Json.Writer
import DesignTokens.Text.Edit
import DesignTokens.Version

/-!
# Design tokens

A token is a named value of a token file. Its value is a text; a value that is no string is kept
beside its text. Resolving a token gives it the value that remains when references are followed.
-/

namespace DesignTokens

/-- A design token. -/
structure Token where
  /-- The path joined with hyphens. -/
  name : String := ""
  /-- The value as text. -/
  value : String := ""
  /-- The value itself, if it is no string. -/
  rawValue : Option Json.Value := none
  /-- The value with references followed. -/
  resolvedValue : Option Json.Value := none
  isResolved : Bool := false
  tokenType : Option String := none
  description : Option String := none
  deprecated : Bool := false
  deprecationMessage : Option String := none
  extensions : Option Json.Fields := none
  /-- The keys from the root of the file to the token. -/
  path : List String := []
  filePath : String := ""
  definitionUri : String := ""
  /-- The line of the token's key, counted from zero. -/
  line : Nat := 0
  /-- The column of the token's key in UTF-16 units. -/
  character : Nat := 0
  /-- What stands before the name in CSS variables. -/
  cssPrefix : String := ""
  version : Version := .unknown
deriving Repr, Inhabited

/-- The last key of a marker that a group extends another. -/
def extendsKey : String := "$extends"

namespace Token

/-- The CSS variable of a token. -/
def cssVariable (t : Token) : String :=
  if t.cssPrefix.isEmpty then "--" ++ t.name else "--" ++ t.cssPrefix ++ "-" ++ t.name

/-- The path with points, as references spell it. A token without a path has its name with points
for hyphens. -/
def dottedPath (t : Token) : String :=
  if t.path.isEmpty then Text.replaceChar '-' '.' t.name else Text.join "." t.path

/-- Whether the token only says that its group extends another. -/
def isExtendsMarker (t : Token) : Bool :=
  t.path.getLast? == some extendsKey

/-- The value before references are followed. -/
def ownValue (t : Token) : Json.Value :=
  t.rawValue.getD (.string t.value)

/-- The token with a resolved value. -/
def markResolved (t : Token) (v : Json.Value) : Token :=
  { t with resolvedValue := some v, isResolved := true }

/-- The value to show: the resolved one, or the text if that is missing or null. -/
def displayValue (t : Token) : String :=
  match t.resolvedValue with
  | none => t.value
  | some .null => t.value
  | some (.string s) => s
  | some v => v.compact

/-- The text in which references are sought: none for a value that is no string. -/
def referenceText? (t : Token) : Option String :=
  if t.rawValue.isSome then none else some t.value

/-- The token's version, or the batch's where that is unknown. -/
def effectiveVersion (t : Token) (batch : Version) : Version :=
  t.version.orElse batch

end Token

end DesignTokens
