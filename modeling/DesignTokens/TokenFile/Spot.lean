import DesignTokens.Position
import DesignTokens.Text.Edit
import DesignTokens.Text.Units

/-!
# Spots in a token file

A spot is a place in the text of a token file: its position and the text from there on. The
position of a token is the spot at which its key is spelled, sought from the spot of the group
around it. Lines of a token file end at line feeds.
-/

namespace DesignTokens.TokenFile

/-- The position after one more character. -/
def advance (p : Position) (c : Char) : Position :=
  if c = '\n' then ⟨p.line + 1, 0⟩ else ⟨p.line, p.character + Text.unitWidth c⟩

/-- The position after a text from its start. -/
def positionAfter (before : List Char) : Position :=
  before.foldl advance {}

/-- A place in a text. -/
structure Spot where
  position : Position
  /-- The text from the spot on. -/
  rest : List Char
deriving Repr

/-- The start of a text. -/
def Spot.start (text : List Char) : Spot :=
  ⟨{}, text⟩

/-- Whether the text goes on with one of the spellings. -/
def startsWithAny (spellings : List (List Char)) (cs : List Char) : Bool :=
  spellings.any fun s => s.isPrefixOf cs

/-- The first place, from a position on, where one of the spellings stands. -/
def seekFrom (spellings : List (List Char)) : Position → List Char → Option Spot
  | p, [] => if startsWithAny spellings [] then some ⟨p, []⟩ else none
  | p, c :: cs =>
    if startsWithAny spellings (c :: cs) then some ⟨p, c :: cs⟩
    else seekFrom spellings (advance p c) cs

/-- The first spot from this one on where one of the spellings stands. -/
def Spot.seek? (s : Spot) (spellings : List (List Char)) : Option Spot :=
  seekFrom spellings s.position s.rest

end DesignTokens.TokenFile
