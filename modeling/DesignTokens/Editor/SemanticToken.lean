import DesignTokens.Editor.Lookup

/-!
# Semantic tokens

The usages of known tokens in a document, for highlighting. Each one is given by its distance from
the one before: in lines and, on the same line, in columns.
-/

namespace DesignTokens.Editor

/-- A highlighted stretch, relative to the one before. -/
structure SemanticToken where
  deltaLine : Nat
  deltaStart : Nat
  length : Nat
  kind : UsageKind
  deprecated : Bool
deriving DecidableEq, Repr

/-- The number of a kind of usage. -/
def kindNumber : UsageKind → Nat
  | .cssVariable => 0
  | .reference => 1

/-- The five numbers of a semantic token. -/
def SemanticToken.numbers (s : SemanticToken) : List Nat :=
  [s.deltaLine, s.deltaStart, s.length, kindNumber s.kind, if s.deprecated then 1 else 0]

/-- A usage and its token as a semantic token after a position. -/
def semanticToken (before : Position) (u : Usage) (t : Token) : SemanticToken :=
  let start := u.range.start
  { deltaLine := start.line - before.line
    deltaStart :=
      if start.line = before.line then start.character - before.character else start.character
    length := u.range.stop.character - start.character
    kind := u.kind
    deprecated := t.deprecated }

/-- The usages of known tokens as semantic tokens, the first relative to a position. -/
def encodeUsages (r : Registry) : (before : Position) → List Usage → List SemanticToken
  | _, [] => []
  | before, u :: us =>
    match lookup r u with
    | none => encodeUsages r before us
    | some t => semanticToken before u t :: encodeUsages r u.range.start us

/-- The semantic tokens of a document. -/
def semanticTokens (r : Registry) (text : String) : List SemanticToken :=
  encodeUsages r {} (usages text)

end DesignTokens.Editor
