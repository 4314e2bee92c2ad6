import DesignTokens.Text.Units

/-!
# Faults in JSON text

A fault is met at a place in the text: so many bytes ahead of the characters not yet read. Its
report gives the line and the column of that place, the column in bytes.
-/

namespace DesignTokens.Json

/-- What is wrong with a text. -/
inductive Cause where
  | unfinishedList
  | unfinishedObject
  | unfinishedString
  | unfinishedValue
  | expectedColon
  | expectedListEnd
  | expectedObjectEnd
  | expectedWord
  | expectedValue
  | invalidEscape
  | invalidNumber
  | numberOutOfRange
  | controlCharacter
  | keyNotString
  | keyNotFinite
  | loneSurrogate
  | unfinishedEscape
  | trailingComma
  | trailingCharacters
  | tooDeep
deriving DecidableEq, Repr

/-- The wording of a cause. -/
def Cause.message : Cause → String
  | .unfinishedList => "EOF while parsing a list"
  | .unfinishedObject => "EOF while parsing an object"
  | .unfinishedString => "EOF while parsing a string"
  | .unfinishedValue => "EOF while parsing a value"
  | .expectedColon => "expected `:`"
  | .expectedListEnd => "expected `,` or `]`"
  | .expectedObjectEnd => "expected `,` or `\x7d`"
  | .expectedWord => "expected ident"
  | .expectedValue => "expected value"
  | .invalidEscape => "invalid escape"
  | .invalidNumber => "invalid number"
  | .numberOutOfRange => "number out of range"
  | .controlCharacter => "control character (\\u0000-\\u001F) found while parsing a string"
  | .keyNotString => "key must be a string"
  | .keyNotFinite => "float key must be finite (got NaN or +/-inf)"
  | .loneSurrogate => "lone leading surrogate in hex escape"
  | .unfinishedEscape => "unexpected end of hex escape"
  | .trailingComma => "trailing comma"
  | .trailingCharacters => "trailing characters"
  | .tooDeep => "recursion limit exceeded"

/-- A fault met while reading: the characters not yet read, and how many bytes of them the fault
takes in. -/
structure Fault where
  cause : Cause
  rest : List Char
  ahead : Nat
deriving Repr

/-- A place in a text. -/
structure Place where
  /-- Counted from one. -/
  line : Nat
  /-- Bytes since the start of the line. -/
  column : Nat
deriving DecidableEq, Repr

/-- The place after the first `offset` bytes of a text. -/
def Place.after : (offset : Nat) → (text : List Char) → Place → Place
  | _, [], p => p
  | offset, c :: cs, p =>
    if offset < c.utf8Size then { p with column := p.column + offset }
    else if c = '\n' then Place.after (offset - c.utf8Size) cs ⟨p.line + 1, 0⟩
    else Place.after (offset - c.utf8Size) cs { p with column := p.column + c.utf8Size }

/-- Why a JSON document, or a value made into one, was refused. -/
inductive Error where
  /-- A fault at a place of the text. -/
  | atPlace (cause : Cause) (place : Place)
  /-- A fault of a value that was not read from JSON text. -/
  | unplaced (cause : Cause)
deriving DecidableEq, Repr

/-- The wording of an error. -/
def Error.message : Error → String
  | .atPlace cause place =>
    cause.message ++ " at line " ++ Nat.repr place.line ++ " column " ++ Nat.repr place.column
  | .unplaced cause => cause.message

/-- The report of a fault met in `text`. -/
def Fault.report (text : List Char) (f : Fault) : Error :=
  let read := Text.bytes text - Text.bytes f.rest
  let offset := min (Text.bytes text) (read + f.ahead)
  .atPlace f.cause (Place.after offset text ⟨1, 0⟩)

end DesignTokens.Json
