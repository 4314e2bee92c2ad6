import DesignTokens.Json.Value

/-!
# Positions and ranges

A position is a line, counted from zero, and a column in UTF-16 units. Positions are ordered as
their places in a text.
-/

namespace DesignTokens

/-- A place in a text, as editors count. -/
structure Position where
  line : Nat := 0
  /-- UTF-16 units since the start of the line. -/
  character : Nat := 0
deriving DecidableEq, Repr, Inhabited

namespace Position

/-- Whether a position stands before another, or is the same. -/
def le (a b : Position) : Bool :=
  a.line < b.line || (a.line == b.line && a.character ≤ b.character)

/-- The JSON form of a position. -/
def toJson (p : Position) : Json.Value :=
  .ofFields [("line", .ofNat p.line), ("character", .ofNat p.character)]

end Position

/-- The text between two positions. -/
structure Range where
  start : Position := {}
  stop : Position := {}
deriving DecidableEq, Repr, Inhabited

namespace Range

/-- The range on one line between two columns. -/
def onLine (line start stop : Nat) : Range :=
  ⟨⟨line, start⟩, ⟨line, stop⟩⟩

/-- The empty range at a position. -/
def point (p : Position) : Range :=
  ⟨p, p⟩

/-- Whether a position lies in a range, both ends included. -/
def contains (r : Range) (p : Position) : Bool :=
  r.start.le p && p.le r.stop

/-- The JSON form of a range. -/
def toJson (r : Range) : Json.Value :=
  .ofFields [("start", r.start.toJson), ("end", r.stop.toJson)]

end Range

end DesignTokens
