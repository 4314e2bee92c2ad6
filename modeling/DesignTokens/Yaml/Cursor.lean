/-!
# Places in YAML text

A `Mark` is a place in a text and a `Cursor` a place with the characters from there on. Lines end
at LF, CR, CR LF, NEL and at the two Unicode separators; columns count characters.
-/

namespace DesignTokens.Yaml

/-- A place in a text, counted from zero. -/
structure Mark where
  /-- Characters before the place. -/
  index : Nat
  line : Nat
  column : Nat
deriving DecidableEq, Repr, Inhabited

/-- The start of a text. -/
def Mark.start : Mark := ⟨0, 0, 0⟩

/-- Whether the place is the start of the first line. -/
def Mark.atStart (m : Mark) : Bool :=
  m.line == 0 && m.column == 0

/-- Whether two places have the same line and column. -/
def Mark.samePlace (a b : Mark) : Bool :=
  a.line == b.line && a.column == b.column

/-- A place as reports write it. -/
def Mark.text (m : Mark) : String :=
  "line " ++ Nat.repr (m.line + 1) ++ " column " ++ Nat.repr (m.column + 1)

/-! ## Character classes -/

/-- A character that ends a line. -/
def isBreak (c : Char) : Bool :=
  c = '\n' || c = '\r' || c.toNat = 0x85 || c.toNat = 0x2028 || c.toNat = 0x2029

/-- A space or a tab. -/
def isBlank (c : Char) : Bool :=
  c = ' ' || c = '\t'

/-- A character of names. -/
def isNameChar (c : Char) : Bool :=
  ('0' ≤ c && c ≤ '9') || ('A' ≤ c && c ≤ 'Z') || ('a' ≤ c && c ≤ 'z') || c = '_' || c = '-'

/-- A blank, a line end or the end of the text. -/
def isGap : Option Char → Bool
  | none => true
  | some c => isBlank c || isBreak c

/-- A line end or the end of the text. -/
def isLineEnd : Option Char → Bool
  | none => true
  | some c => isBreak c

/-- A character that structures flow collections. -/
def isFlowMark (c : Char) : Bool :=
  c = ',' || c = '[' || c = ']' || c = '{' || c = '}'

/-! ## Cursors -/

/-- A place in a text and what follows it. -/
structure Cursor where
  rest : List Char
  mark : Mark
deriving Repr, Inhabited

namespace Cursor

/-- The cursor at the start of a text. -/
def ofText (text : List Char) : Cursor :=
  ⟨text, .start⟩

/-- The character `k` places ahead. -/
def ahead (c : Cursor) (k : Nat) : Option Char :=
  c.rest[k]?

/-- The next character. -/
def next (c : Cursor) : Option Char :=
  c.rest.head?

/-- Whether the next character is `x`. -/
def sees (c : Cursor) (x : Char) : Bool :=
  c.next == some x

/-- The column of the cursor. -/
def column (c : Cursor) : Nat :=
  c.mark.column

/-- Passes over `n` characters of one line. -/
def skip (c : Cursor) (n : Nat) : Cursor :=
  let k := (c.rest.take n).length
  { rest := c.rest.drop n
    mark := { c.mark with index := c.mark.index + k, column := c.mark.column + k } }

/-- Passes over the characters of one line with a property. -/
def skipWhile (p : Char → Bool) (c : Cursor) : Cursor :=
  c.skip (c.rest.takeWhile p).length

/-- Passes over the rest of the line. -/
def skipToLineEnd (c : Cursor) : Cursor :=
  c.skipWhile fun x => !isBreak x

/-- Passes over a line end and gives its text: the separators stand for themselves, the others
for a line feed. Elsewhere nothing is passed. -/
def takeBreak (c : Cursor) : List Char × Cursor :=
  match c.rest with
  | '\r' :: '\n' :: s => (['\n'], ⟨s, ⟨c.mark.index + 2, c.mark.line + 1, 0⟩⟩)
  | x :: s =>
    if isBreak x then
      (if x.toNat = 0x2028 ∨ x.toNat = 0x2029 then [x] else ['\n'],
        ⟨s, ⟨c.mark.index + 1, c.mark.line + 1, 0⟩⟩)
    else ([], c)
  | [] => ([], c)

/-- Passes over a line end, if the cursor stands at one. -/
def skipBreak (c : Cursor) : Cursor :=
  c.takeBreak.2

/-- Whether the cursor stands at a line of three characters `x` that ends there or goes on with a
gap: the marker of a document's start or end. -/
def atMarker (c : Cursor) (x : Char) : Bool :=
  c.column == 0 && c.ahead 0 == some x && c.ahead 1 == some x && c.ahead 2 == some x &&
    isGap (c.ahead 3)

/-- Whether the cursor stands at the marker of a document's start or end. -/
def atDocumentMarker (c : Cursor) : Bool :=
  c.atMarker '-' || c.atMarker '.'

end Cursor

end DesignTokens.Yaml
