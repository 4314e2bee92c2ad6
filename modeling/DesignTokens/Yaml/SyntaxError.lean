import DesignTokens.Yaml.Cursor

/-!
# Syntax errors in YAML text

A syntax error has a problem with its place and, mostly, a context: what was being read, and
where that began. A place at the very start of the text is left out of the report.
-/

namespace DesignTokens.Yaml

/-- What is wrong. -/
inductive Problem where
  | controlCharacter
  | noSimpleKeyColon
  | blockEntryNotAllowed
  | keyNotAllowed
  | valueNotAllowed
  | noTokenStart
  | unknownDirective
  | noDirectiveName
  | badDirectiveName
  | noCommentOrBreak
  | noVersionDot
  | longVersion
  | noVersionNumber
  | noBlank
  | noBlankOrBreak
  | noAnchorName
  | noVerbatimEnd
  | noTagBang
  | noTagUri
  | noEscapedOctet
  | badLeadingOctet
  | badTrailingOctet
  | zeroIndentation
  | tabIndentation
  | documentMarker
  | endOfText
  | unknownEscape
  | noHexNumber
  | badCodePoint
  | unexpectedColon
  | tabInPlain
  | noDocumentStart
  | undefinedHandle
  | noNodeContent
  | noDash
  | noKey
  | noSequenceEnd
  | noMappingEnd
  | duplicateVersion
  | incompatibleVersion
  | duplicateHandle
deriving DecidableEq, Repr

/-- The wording of a problem. -/
def Problem.message : Problem → String
  | .controlCharacter => "control characters are not allowed"
  | .noSimpleKeyColon => "could not find expected ':'"
  | .blockEntryNotAllowed => "block sequence entries are not allowed in this context"
  | .keyNotAllowed => "mapping keys are not allowed in this context"
  | .valueNotAllowed => "mapping values are not allowed in this context"
  | .noTokenStart => "found character that cannot start any token"
  | .unknownDirective => "found unknown directive name"
  | .noDirectiveName => "could not find expected directive name"
  | .badDirectiveName => "found unexpected non-alphabetical character"
  | .noCommentOrBreak => "did not find expected comment or line break"
  | .noVersionDot => "did not find expected digit or '.' character"
  | .longVersion => "found extremely long version number"
  | .noVersionNumber => "did not find expected version number"
  | .noBlank => "did not find expected whitespace"
  | .noBlankOrBreak => "did not find expected whitespace or line break"
  | .noAnchorName => "did not find expected alphabetic or numeric character"
  | .noVerbatimEnd => "did not find the expected '>'"
  | .noTagBang => "did not find expected '!'"
  | .noTagUri => "did not find expected tag URI"
  | .noEscapedOctet => "did not find URI escaped octet"
  | .badLeadingOctet => "found an incorrect leading UTF-8 octet"
  | .badTrailingOctet => "found an incorrect trailing UTF-8 octet"
  | .zeroIndentation => "found an indentation indicator equal to 0"
  | .tabIndentation => "found a tab character where an indentation space is expected"
  | .documentMarker => "found unexpected document indicator"
  | .endOfText => "found unexpected end of stream"
  | .unknownEscape => "found unknown escape character"
  | .noHexNumber => "did not find expected hexdecimal number"
  | .badCodePoint => "found invalid Unicode character escape code"
  | .unexpectedColon => "found unexpected ':'"
  | .tabInPlain => "found a tab character that violates indentation"
  | .noDocumentStart => "did not find expected <document start>"
  | .undefinedHandle => "found undefined tag handle"
  | .noNodeContent => "did not find expected node content"
  | .noDash => "did not find expected '-' indicator"
  | .noKey => "did not find expected key"
  | .noSequenceEnd => "did not find expected ',' or ']'"
  | .noMappingEnd => "did not find expected ',' or '\x7d'"
  | .duplicateVersion => "found duplicate %YAML directive"
  | .incompatibleVersion => "found incompatible YAML document"
  | .duplicateHandle => "found duplicate %TAG directive"

/-- What was being read. -/
inductive Context where
  | simpleKey
  | nextToken
  | directive
  | versionDirective
  | tagDirective
  | tagDirectiveHandle
  | tagDirectiveBang
  | tagDirectiveUri
  | anchor
  | aliasName
  | tag
  | tagUri
  | blockScalar
  | quotedScalar
  | quotedEscape
  | plainScalar
  | node
  | blockNode
  | flowNode
  | blockSequence
  | blockMapping
  | flowSequence
  | flowMapping
deriving DecidableEq, Repr

/-- The wording of a context. -/
def Context.message : Context → String
  | .simpleKey => "while scanning a simple key"
  | .nextToken => "while scanning for the next token"
  | .directive => "while scanning a directive"
  | .versionDirective => "while scanning a %YAML directive"
  | .tagDirective => "while scanning a %TAG directive"
  | .tagDirectiveHandle => "while scanning a tag directive"
  | .tagDirectiveBang => "while parsing a tag directive"
  | .tagDirectiveUri => "while parsing a %TAG directive"
  | .anchor => "while scanning an anchor"
  | .aliasName => "while scanning an alias"
  | .tag => "while scanning a tag"
  | .tagUri => "while parsing a tag"
  | .blockScalar => "while scanning a block scalar"
  | .quotedScalar => "while scanning a quoted scalar"
  | .quotedEscape => "while parsing a quoted scalar"
  | .plainScalar => "while scanning a plain scalar"
  | .node => "while parsing a node"
  | .blockNode => "while parsing a block node"
  | .flowNode => "while parsing a flow node"
  | .blockSequence => "while parsing a block collection"
  | .blockMapping => "while parsing a block mapping"
  | .flowSequence => "while parsing a flow sequence"
  | .flowMapping => "while parsing a flow mapping"

/-- A syntax error. -/
structure SyntaxError where
  problem : Problem
  /-- The place of the problem; a refused character has a byte offset instead. -/
  mark : Mark
  /-- The byte offset of a refused character. -/
  offset : Nat
  context : Option (Context × Mark)
deriving DecidableEq, Repr

namespace SyntaxError

/-- An error with a place and no context. -/
def plain (problem : Problem) (mark : Mark) : SyntaxError :=
  ⟨problem, mark, 0, none⟩

/-- An error met while reading something that began at `start`. -/
def within (context : Context) (start : Mark) (problem : Problem) (mark : Mark) : SyntaxError :=
  ⟨problem, mark, 0, some (context, start)⟩

/-- The wording of an error. -/
def message (e : SyntaxError) : String :=
  let place :=
    if !e.mark.atStart then " at " ++ e.mark.text
    else if e.offset ≠ 0 then " at position " ++ Nat.repr e.offset
    else ""
  let context := match e.context with
    | none => ""
    | some (context, start) =>
      ", " ++ context.message ++
        if !start.atStart && !start.samePlace e.mark then " at " ++ start.text else ""
  e.problem.message ++ place ++ context

end SyntaxError

end DesignTokens.Yaml
