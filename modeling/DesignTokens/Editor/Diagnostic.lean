import DesignTokens.Editor.Lookup
import DesignTokens.Text.LowerCase
import DesignTokens.Workspace

/-!
# Diagnostics

The problems shown in a document: those of the workspace that concern it, aliases of unknown
tokens, usages of deprecated tokens, and fallbacks that differ from the value of their token.
-/

namespace DesignTokens.Editor

/-- How grave a diagnostic is. -/
inductive Severity where
  | error
  | warning
  | information
deriving DecidableEq, Repr

/-- The number of a severity. -/
def Severity.number : Severity → Nat
  | .error => 1
  | .warning => 2
  | .information => 3

/-- What a diagnostic is about. -/
inductive Code where
  | unknownToken
  | deprecatedToken
  | incorrectFallback
deriving DecidableEq, Repr

/-- The name of a code. -/
def Code.name : Code → String
  | .unknownToken => "unknown-token"
  | .deprecatedToken => "deprecated-token"
  | .incorrectFallback => "incorrect-fallback"

/-- A place that belongs to a diagnostic. -/
structure Related where
  location : Location
  message : String
deriving DecidableEq, Repr

/-- A problem in a document. -/
structure Diagnostic where
  range : Range
  severity : Severity
  code : Option Code := none
  message : String
  related : Option Related := none
  /-- Whether the range is shown as deprecated. -/
  deprecated : Bool := false
deriving DecidableEq, Repr

/-- The name under which diagnostics are shown. -/
def diagnosticSource : String := "design-tokens"

/-- The JSON form of a related place. -/
def Related.toJson (r : Related) : Json.Value :=
  .ofFields [("location", r.location.toJson), ("message", .string r.message)]

/-- The JSON form of a diagnostic. -/
def Diagnostic.toJson (d : Diagnostic) : Json.Value :=
  .ofFields <|
    [("range", d.range.toJson), ("severity", .ofNat d.severity.number),
     ("source", .string diagnosticSource), ("message", .string d.message)]
    ++ (d.code.map fun c => ("code", Json.Value.string c.name)).toList
    ++ (d.related.map fun r => ("relatedInformation", Json.Value.array [r.toJson])).toList
    ++ (if d.deprecated then [("tags", .array [.ofNat 2])] else [])

/-- The diagnostic of an issue. -/
def ofIssue (i : Issue) : Diagnostic :=
  { range := (i.position.map Range.point).getD {}
    severity := .error
    message := i.message }

/-- A CSS value without blanks and in lower case. -/
def plainCss (value : String) : List Char :=
  Text.lower (value.toList.filter fun c => !Text.isBlank c)

/-- Whether a text has `part` in it. -/
def hasPart (part : List Char) : List Char → Bool
  | [] => part.isEmpty
  | c :: cs => part.isPrefixOf (c :: cs) || hasPart part cs

/-- The diagnostic of a usage of an unknown token. CSS variables need not be tokens. -/
def unknownToken (u : Usage) : List Diagnostic :=
  match u.kind with
  | .cssVariable => []
  | .reference =>
    [{ range := u.range, severity := .warning, code := some .unknownToken
       message := "Unknown design token reference: \x7b" ++ u.name ++ "\x7d" }]

/-- The diagnostic of a usage of a deprecated token. -/
def deprecatedToken (u : Usage) (t : Token) : List Diagnostic :=
  if t.deprecated then
    [{ range := u.range, severity := .information, code := some .deprecatedToken
       message := u.name ++ " is deprecated" ++ ((t.deprecationMessage.map (": " ++ ·)).getD "")
       related := (definitionOf t).map fun l =>
         ⟨l, "Token " ++ t.cssVariable ++ " defined here"⟩
       deprecated := true }]
  else []

/-- The diagnostic of a fallback that differs from the token's value. A fallback with a call in it
has no value of its own. -/
def incorrectFallback (u : Usage) (t : Token) : List Diagnostic :=
  match u.fallback with
  | none => []
  | some fallback =>
    if hasPart callStart fallback.toList then []
    else if plainCss fallback = plainCss t.displayValue then []
    else
      [{ range := u.range, severity := .error, code := some .incorrectFallback
         message := "Token fallback does not match expected value: " ++ t.displayValue }]

/-- The diagnostics of a usage. -/
def ofUsage (r : Registry) (u : Usage) : List Diagnostic :=
  match lookup r u with
  | none => unknownToken u
  | some t => deprecatedToken u t ++ incorrectFallback u t

/-- The diagnostics of a document: first the issues that concern it, then its usages in order. -/
def diagnostics (r : Registry) (text : String) (issues : List Issue) : List Diagnostic :=
  issues.map ofIssue ++ (usages text).flatMap (ofUsage r)

end DesignTokens.Editor
