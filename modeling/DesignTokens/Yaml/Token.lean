import DesignTokens.Yaml.Cursor

/-!
# YAML tokens

The smallest parts of a YAML text, each with the places where it begins and ends.
-/

namespace DesignTokens.Yaml

/-- The text of a tag. Percent escapes may leave bytes that are no UTF-8. -/
abbrev TagText := List UInt8

/-- The bytes of a text. -/
def tagText (s : String) : TagText :=
  s.toUTF8.toList

/-- How a scalar is written. -/
inductive ScalarStyle where
  | plain
  | quoted
  | block
deriving DecidableEq, Repr

/-- What a token is. -/
inductive TokenKind where
  | streamStart
  | streamEnd
  | versionDirective (major minor : Nat)
  | tagDirective (handle expansion : TagText)
  | documentStart
  | documentEnd
  | blockSequenceStart
  | blockMappingStart
  | blockEnd
  | flowSequenceStart
  | flowSequenceEnd
  | flowMappingStart
  | flowMappingEnd
  | blockEntry
  | flowEntry
  | key
  | value
  | aliasName (name : String)
  | anchor (name : String)
  | tag (handle suffix : TagText)
  | scalar (text : String) (style : ScalarStyle)
deriving DecidableEq, Repr

/-- A token and its place. -/
structure Token where
  kind : TokenKind
  start : Mark
  stop : Mark
deriving DecidableEq, Repr

end DesignTokens.Yaml
