import DesignTokens.Text.Units

/-!
# File name patterns

A pattern is matched against a whole path, byte by byte. A question mark stands for one byte and a
star for any number of them, neither for a slash. Two stars between slashes stand for any number of
directories, and two stars alone for every path. Brackets hold a set of characters and braces a
choice of patterns; a bracket that is not closed stands for itself.
-/

namespace DesignTokens.Discovery

/-- The slash. -/
def slash : UInt8 := 47

/-- A piece of a pattern. -/
inductive Piece where
  | byte (b : UInt8)
  /-- One byte other than a slash. -/
  | one
  /-- Any number of bytes other than slashes. -/
  | many
  /-- A byte in one of the ranges, or in none of them. -/
  | among (negated : Bool) (ranges : List (UInt8 × UInt8))
  /-- Any directories at the start. -/
  | leading
  /-- A slash and all that follows. -/
  | trailing
  /-- A slash, or any directories between two slashes. -/
  | between
deriving DecidableEq, Repr

/-- The texts that follow a slash. -/
def afterSlashes : List UInt8 → List (List UInt8)
  | [] => []
  | b :: bs => if b = slash then bs :: afterSlashes bs else afterSlashes bs

/-- A text without some bytes at its front, none of them a slash. -/
def withinSegment : List UInt8 → List (List UInt8)
  | [] => [[]]
  | b :: bs => if b = slash then [b :: bs] else (b :: bs) :: withinSegment bs

/-- All endings of a text. -/
def endings : List UInt8 → List (List UInt8)
  | [] => [[]]
  | b :: bs => (b :: bs) :: endings bs

/-- Whether a list of pieces matches a whole text. -/
def matchesPieces : List Piece → List UInt8 → Bool
  | [], s => s.isEmpty
  | .byte b :: ps, s =>
    match s with
    | c :: cs => c == b && matchesPieces ps cs
    | [] => false
  | .one :: ps, s =>
    match s with
    | c :: cs => c != slash && matchesPieces ps cs
    | [] => false
  | .many :: ps, s => (withinSegment s).any (matchesPieces ps)
  | .among negated ranges :: ps, s =>
    match s with
    | c :: cs => (ranges.any fun r => r.1 ≤ c && c ≤ r.2) != negated && matchesPieces ps cs
    | [] => false
  | .leading :: ps, s => (s :: afterSlashes s).any (matchesPieces ps)
  | .trailing :: ps, s =>
    match s with
    | c :: cs => c == slash && (endings cs).any (matchesPieces ps)
    | [] => false
  | .between :: ps, s =>
    match s with
    | c :: cs => c == slash && (cs :: afterSlashes cs).any (matchesPieces ps)
    | [] => false

/-- A pattern: the choices that its braces leave. -/
abbrev Glob := List (List Piece)

/-- Whether a pattern matches a path. -/
def Glob.accepts (g : Glob) (path : String) : Bool :=
  g.any fun pieces => matchesPieces pieces path.toUTF8.data.toList

/-! ## Reading -/

/-- The byte ranges of a range of characters; of characters of several bytes the outer bytes stand
alone. -/
def charRange (a b : Char) : List (UInt8 × UInt8) :=
  if a = b then (Text.charBytes a).map fun x => (x, x)
  else
    match (Text.charBytes a).reverse, Text.charBytes b with
    | last :: before, first :: after =>
      before.reverse.map (fun x => (x, x)) ++ [(last, first)] ++ after.map fun x => (x, x)
    | _, _ => []

/-- A set of characters while it is read: its ranges, the last first, and whether a hyphen waits
for the end of a range. -/
structure CharSet where
  ranges : List (Char × Char) := []
  dangling : Bool := false

/-- Why there is no set of characters. -/
inductive SetFault where
  | notClosed
  /-- A range whose end comes before its start. -/
  | backwards
deriving DecidableEq, Repr

/-- Puts a character into a set. -/
def CharSet.add (s : CharSet) (c : Char) : Except SetFault CharSet :=
  match s.dangling, s.ranges with
  | true, (a, _) :: rest => if c < a then .error .backwards else .ok ⟨(a, c) :: rest, false⟩
  | _, ranges => .ok ⟨(c, c) :: ranges, false⟩

/-- Reads a set of characters up to its closing bracket; a bracket or a hyphen that comes first
is a member. -/
def readSet : (first : Bool) → CharSet → List Char → Except SetFault (CharSet × List Char)
  | _, _, [] => .error .notClosed
  | first, s, c :: cs =>
    if c = ']' ∧ !first then .ok (s, cs)
    else if c = '-' ∧ !first ∧ !s.dangling then readSet false { s with dangling := true } cs
    else
      match s.add c with
      | .ok s' => readSet false s' cs
      | .error fault => .error fault

/-- The piece of a set of characters. -/
def CharSet.piece (negated : Bool) (s : CharSet) : Piece :=
  let ranges := if s.dangling then ('-', '-') :: s.ranges else s.ranges
  .among negated (ranges.reverse.flatMap fun r => charRange r.1 r.2)

/-- One of the alternatives in braces, or the whole pattern: its choices so far, each with its last
piece first, and whether it has pieces. -/
structure Branch where
  choices : List (List Piece) := [[]]
  started : Bool := false

/-- Adds a piece. -/
def Branch.push (b : Branch) (p : Piece) : Branch :=
  ⟨b.choices.map (p :: ·), true⟩

/-- Adds the bytes of a character. -/
def Branch.pushChar (b : Branch) (c : Char) : Branch :=
  ⟨b.choices.map fun ps => ((Text.charBytes c).map Piece.byte).reverse ++ ps, true⟩

/-- Replaces the last piece. -/
def Branch.replaceLast (b : Branch) (f : Piece → Piece) : Branch :=
  { b with choices := b.choices.map fun ps =>
      match ps with
      | p :: rest => f p :: rest
      | [] => [] }

/-- The piece in place of a slash and two stars. -/
def doubleStar (atEnd : Bool) : Piece → Piece
  | .leading => .leading
  | .trailing => .trailing
  | _ => if atEnd then .trailing else .between

/-- A pattern while it is read: open braces with the finished alternatives and the one around
them, the innermost first. -/
structure GlobReader where
  branch : Branch := {}
  outer : List (List Branch × Branch) := []
  /-- The last character. -/
  last : Option Char := none

/-- Adds two plain stars. -/
def GlobReader.plainStars (r : GlobReader) : GlobReader :=
  { r with branch := (r.branch.push .many).push .many, last := some '*' }

/-- Closes the innermost brace. -/
def GlobReader.close (r : GlobReader) : Option GlobReader :=
  match r.outer with
  | [] => none
  | (finished, around) :: outer =>
    let options := (finished ++ [r.branch]).flatMap Branch.choices
    some { branch := ⟨around.choices.flatMap fun ps => options.map (· ++ ps), true⟩,
           outer := outer, last := some '}' }

/-- Reads two stars, after them. -/
def GlobReader.twoStars (r : GlobReader) (rest : List Char) : GlobReader × List Char :=
  if !r.branch.started then
    match rest with
    | [] => ({ r with branch := r.branch.push .leading, last := some '*' }, [])
    | c :: cs =>
      if c = '/' then ({ r with branch := r.branch.push .leading, last := some '/' }, cs)
      else (r.plainStars, c :: cs)
  else if r.last != some '/' then (r.plainStars, rest)
  else
    match rest with
    | [] => ({ r with branch := r.branch.replaceLast (doubleStar true), last := some '*' }, [])
    | c :: cs =>
      if c = '/' then
        ({ r with branch := r.branch.replaceLast (doubleStar false), last := some '/' }, cs)
      else if !r.outer.isEmpty && (c = ',' || c = '}') then
        ({ r with branch := r.branch.replaceLast (doubleStar true), last := some '*' }, c :: cs)
      else (r.plainStars, c :: cs)

/-- Reads a pattern; each step spends one unit of fuel and reads a character or more. -/
def readGlob : (fuel : Nat) → GlobReader → List Char → Option GlobReader
  | 0, r, _ => some r
  | _ + 1, r, [] => some r
  | fuel + 1, r, c :: cs =>
    if c = '?' then readGlob fuel { r with branch := r.branch.push .one, last := some c } cs
    else if c = '*' then
      match cs with
      | '*' :: rest =>
        let (r', rest') := r.twoStars rest
        readGlob fuel r' rest'
      | _ => readGlob fuel { r with branch := r.branch.push .many, last := some c } cs
    else if c = '[' then
      let (negated, body) := match cs with
        | '!' :: rest => (true, rest)
        | '^' :: rest => (true, rest)
        | rest => (false, rest)
      match readSet true {} body with
      | .ok (s, rest) =>
        readGlob fuel { r with branch := r.branch.push (s.piece negated), last := some ']' } rest
      | .error .notClosed =>
        readGlob fuel { r with branch := r.branch.pushChar c, last := some c } cs
      | .error .backwards => none
    else if c = '{' then
      readGlob fuel { branch := {}, outer := ([], r.branch) :: r.outer, last := some c } cs
    else if c = '}' then
      match r.close with
      | some r' => readGlob fuel r' cs
      | none => none
    else if c = ',' then
      match r.outer with
      | [] => readGlob fuel { r with branch := r.branch.pushChar c, last := some c } cs
      | (finished, around) :: outer =>
        readGlob fuel { branch := {}, outer := (finished ++ [r.branch], around) :: outer,
                        last := some c } cs
    else if c = '\\' then
      match cs with
      | [] => none
      | d :: rest => readGlob fuel { r with branch := r.branch.pushChar d, last := some d } rest
    else readGlob fuel { r with branch := r.branch.pushChar c, last := some c } cs

/-- The pattern of pieces that were read; any directories alone take any name with them. -/
def Glob.ofChoices (choices : List (List Piece)) : Glob :=
  if choices = [[.leading]] then [[.leading, .many]] else choices.map List.reverse

/-- The pattern of a text; none if a brace is not closed or a range runs backwards. -/
def Glob.parse? (text : String) : Option Glob :=
  match readGlob (text.length + 1) {} text.toList with
  | some r => if r.outer.isEmpty then some (.ofChoices r.branch.choices) else none
  | none => none

end DesignTokens.Discovery
