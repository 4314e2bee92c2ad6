import DesignTokens.Editor.Usage
import DesignTokens.Registry
import DesignTokens.Reference
import DesignTokens.Uri

/-!
# Looking at a usage

What an editor shows where a token is used: a description of the token, and the place where it is
defined.
-/

namespace DesignTokens.Editor

/-- The token of a usage. -/
def lookup (r : Registry) (u : Usage) : Option Token :=
  match u.kind with
  | .cssVariable => r.find? u.name
  | .reference => r.find? (Reference.dottedToName u.name)

/-- A place in a document. -/
structure Location where
  uri : String
  range : Range
deriving DecidableEq, Repr

/-- The JSON form of a location. -/
def Location.toJson (l : Location) : Json.Value :=
  .ofFields [("uri", .string l.uri), ("range", l.range.toJson)]

/-- The place where a token is defined, if it has an address. -/
def definitionOf (t : Token) : Option Location :=
  match Uri.parse t.definitionUri with
  | .ok u => some ⟨u.text, .point ⟨t.line, t.character⟩⟩
  | .error _ => none

/-- The place where the token around a position is defined. -/
def definition (r : Registry) (text : String) (p : Position) : Option Location :=
  ((usageAt? text p).bind (lookup r)).bind definitionOf

/-- Whether a token was resolved to something else than its own text. -/
def isAlias (t : Token) : Bool :=
  t.rawValue.isNone && t.isResolved && t.displayValue ≠ t.value

/-- A text in backquotes. -/
def code (s : String) : String :=
  "`" ++ s ++ "`"

/-- The paragraphs that describe a token. -/
def paragraphs (t : Token) : List String :=
  ["**" ++ t.cssVariable ++ "**", "```\n" ++ t.displayValue ++ "\n```"]
  ++ (if isAlias t then ["Alias of " ++ code t.value] else [])
  ++ (t.tokenType.map fun type => "Type: " ++ code type).toList
  ++ t.description.toList
  ++ (if t.deprecated then
        ["**Deprecated**" ++ ((t.deprecationMessage.map (": " ++ ·)).getD "")]
      else [])
  ++ (if t.filePath.isEmpty then [] else ["Defined in " ++ code t.filePath])

/-- A description of a token. -/
def describe (t : Token) : String :=
  Text.join "\n\n" (paragraphs t)

/-- A description beside a usage. -/
structure Hover where
  text : String
  range : Range
deriving DecidableEq, Repr

/-- The JSON form of a hover. -/
def Hover.toJson (h : Hover) : Json.Value :=
  .ofFields
    [("contents", .ofFields [("kind", .string "markdown"), ("value", .string h.text)]),
     ("range", h.range.toJson)]

/-- A description of the token around a position. -/
def hover (r : Registry) (text : String) (p : Position) : Option Hover :=
  (usageAt? text p).bind fun u => (lookup r u).map fun t => ⟨describe t, u.range⟩

end DesignTokens.Editor
