import DesignTokens.Yaml.SyntaxError
import DesignTokens.Yaml.Token

/-!
# Scalars

Plain, quoted and block scalars, read from their first character. Line ends inside a plain or
quoted scalar are folded: a single one becomes a space, of several the first is dropped.
-/

namespace DesignTokens.Yaml

/-- The text that stands for a run of line ends: the first of them and the later ones. -/
def foldBreaks (first later : List Char) : List Char :=
  if first.head? = some '\n' then if later.isEmpty then [' '] else later
  else first ++ later

/-! ## Plain scalars -/

/-- The characters of a plain scalar up to a gap or an indicator that ends it. The flag tells of a
colon that is not allowed where it stands. -/
def plainRun (flow : Bool) : List Char → List Char × Bool
  | [] => ([], false)
  | c :: s =>
    if isGap (some c) then ([], false)
    else if flow && c = ':' && s.head?.any (fun d => isFlowMark d || d = '?') then ([], true)
    else if (c = ':' && isGap s.head?) || (flow && isFlowMark c) then ([], false)
    else
      let (run, bad) := plainRun flow s
      (c :: run, bad)

/-- The gap after a run of characters. -/
structure Gap where
  /-- Blanks before the first line end. -/
  blanks : List Char
  /-- The first line end. -/
  first : List Char
  /-- The later line ends. -/
  later : List Char
  /-- Whether there is a line end. -/
  broken : Bool

/-- A gap with nothing in it. -/
def Gap.empty : Gap := ⟨[], [], [], false⟩

/-- The text that a gap stands for. -/
def Gap.text (g : Gap) : List Char :=
  if g.broken then foldBreaks g.first g.later else g.blanks

/-- Passes over blanks and line ends. A tab before column `indent` of a new line is refused. -/
def takeGap (indent : Int) : (fuel : Nat) → Gap → Cursor → Except Mark (Gap × Cursor)
  | 0, g, c => .ok (g, c)
  | fuel + 1, g, c =>
    match c.next with
    | none => .ok (g, c)
    | some x =>
      if isBlank x then
        if g.broken && (c.column : Int) < indent && x = '\t' then .error c.mark
        else if g.broken then takeGap indent fuel g (c.skip 1)
        else takeGap indent fuel { g with blanks := g.blanks ++ [x] } (c.skip 1)
      else if isBreak x then
        let (text, c') := c.takeBreak
        if g.broken then takeGap indent fuel { g with later := g.later ++ text } c'
        else takeGap indent fuel { g with first := text, broken := true } c'
      else .ok (g, c)

/-- A plain scalar being read: its text so far, where that ends, and the gap after it. -/
structure PlainText where
  text : List Char
  stop : Mark
  gap : Gap

/-- Reads the lines of a plain scalar. -/
def plainLines (flow : Bool) (indent : Int) (start : Mark) :
    (fuel : Nat) → PlainText → Cursor → Except SyntaxError (PlainText × Cursor)
  | 0, p, c => .ok (p, c)
  | fuel + 1, p, c =>
    if c.atDocumentMarker || c.sees '#' then .ok (p, c)
    else
      let (run, bad) := plainRun flow c.rest
      let c' := c.skip run.length
      if bad then .error (.within .plainScalar start .unexpectedColon c'.mark)
      else
        let p' := if run.isEmpty then p else ⟨p.text ++ p.gap.text ++ run, c'.mark, .empty⟩
        if c'.next.isNone || !isGap c'.next then .ok (p', c')
        else
          match takeGap indent (c'.rest.length + 1) p'.gap c' with
          | .error m => .error (.within .plainScalar start .tabInPlain m)
          | .ok (gap, c'') =>
            let p'' := { p' with gap := gap }
            if !flow && (c''.column : Int) < indent then .ok (p'', c'')
            else plainLines flow indent start fuel p'' c''

/-- Reads a plain scalar; the flag tells whether a line end follows it. -/
def scanPlain (flow : Bool) (indent : Int) (c : Cursor) :
    Except SyntaxError (Token × Bool × Cursor) :=
  match plainLines flow indent c.mark (c.rest.length + 1) ⟨[], c.mark, .empty⟩ c with
  | .error e => .error e
  | .ok (p, c') => .ok (⟨.scalar (String.ofList p.text) .plain, c.mark, p.stop⟩, p.gap.broken, c')

/-! ## Quoted scalars -/

/-- The value of a hexadecimal digit. -/
def hexValue? (c : Char) : Option Nat :=
  if '0' ≤ c ∧ c ≤ '9' then some (c.toNat - 48)
  else if 'a' ≤ c ∧ c ≤ 'f' then some (c.toNat - 87)
  else if 'A' ≤ c ∧ c ≤ 'F' then some (c.toNat - 55)
  else none

/-- The number that the first `count` characters spell in hexadecimal digits. -/
def hexNumber? : (count : Nat) → (value : Nat) → List Char → Option Nat
  | 0, value, _ => some value
  | _ + 1, _, [] => none
  | count + 1, value, c :: s =>
    match hexValue? c with
    | none => none
    | some d => hexNumber? count (value * 16 + d) s

/-- What a letter after a backslash stands for. -/
inductive Escape where
  /-- A character. -/
  | char (c : Char)
  /-- The code point in the next digits. -/
  | code (digits : Nat)

/-- The meaning of a letter after a backslash. -/
def escape? (c : Char) : Option Escape :=
  let char (n : Nat) : Option Escape := some (.char (Char.ofNat n))
  match c with
  | '0' => char 0
  | 'a' => char 7
  | 'b' => char 8
  | 't' => char 9
  | '\t' => char 9
  | 'n' => char 10
  | 'v' => char 11
  | 'f' => char 12
  | 'r' => char 13
  | 'e' => char 27
  | ' ' => char 32
  | '"' => char 34
  | '/' => char 47
  | '\\' => char 92
  | 'N' => char 0x85
  | '_' => char 0xA0
  | 'L' => char 0x2028
  | 'P' => char 0x2029
  | 'x' => some (.code 2)
  | 'u' => some (.code 4)
  | 'U' => some (.code 8)
  | _ => none

/-- Reads an escape sequence from its backslash on. -/
def takeEscape (start : Mark) (c : Cursor) : Except SyntaxError (Char × Cursor) :=
  match (c.ahead 1).bind escape? with
  | none => .error (.within .quotedEscape start .unknownEscape c.mark)
  | some (.char x) => .ok (x, c.skip 2)
  | some (.code digits) =>
    let c' := c.skip 2
    match hexNumber? digits 0 c'.rest with
    | none => .error (.within .quotedEscape start .noHexNumber c'.mark)
    | some n =>
      if (0xD800 ≤ n ∧ n ≤ 0xDFFF) ∨ 0x10FFFF < n then
        .error (.within .quotedEscape start .badCodePoint c'.mark)
      else .ok (Char.ofNat n, c'.skip digits)

/-- Reads characters up to a gap, the closing quote or an escaped line end; the flag tells of the
last. -/
def quotedRun (single : Bool) (start : Mark) :
    (fuel : Nat) → Cursor → Except SyntaxError (List Char × Bool × Cursor)
  | 0, c => .ok ([], false, c)
  | fuel + 1, c =>
    match c.next with
    | none => .ok ([], false, c)
    | some x =>
      if isGap (some x) then .ok ([], false, c)
      else if single && x = '\'' && c.ahead 1 == some '\'' then do
        let (run, broken, c') ← quotedRun single start fuel (c.skip 2)
        return ('\'' :: run, broken, c')
      else if x = (if single then '\'' else '"') then .ok ([], false, c)
      else if !single && x = '\\' then
        if (c.ahead 1).any isBreak then .ok ([], true, (c.skip 1).skipBreak)
        else do
          let (y, c') ← takeEscape start c
          let (run, broken, c'') ← quotedRun single start fuel c'
          return (y :: run, broken, c'')
      else do
        let (run, broken, c') ← quotedRun single start fuel (c.skip 1)
        return (x :: run, broken, c')

/-- Reads a quoted scalar after its opening quote. -/
def quotedLines (single : Bool) (start : Mark) :
    (fuel : Nat) → Cursor → Except SyntaxError (List Char × Cursor)
  | 0, c => .ok ([], c)
  | fuel + 1, c =>
    if c.atDocumentMarker then .error (.within .quotedScalar start .documentMarker c.mark)
    else if c.next.isNone then .error (.within .quotedScalar start .endOfText c.mark)
    else do
      let (run, broken, c') ← quotedRun single start (c.rest.length + 1) c
      if c'.sees (if single then '\'' else '"') then return (run, c'.skip 1)
      else
        match takeGap 0 (c'.rest.length + 1) { Gap.empty with broken := broken } c' with
        | .error m => .error (.within .quotedScalar start .tabInPlain m)
        | .ok (gap, c'') => do
          let (more, c''') ← quotedLines single start fuel c''
          return (run ++ gap.text ++ more, c''')

/-- Reads a quoted scalar. -/
def scanQuoted (single : Bool) (c : Cursor) : Except SyntaxError (Token × Cursor) := do
  let (text, c') ← quotedLines single c.mark (c.rest.length + 1) (c.skip 1)
  return (⟨.scalar (String.ofList text) .quoted, c.mark, c'.mark⟩, c')

/-! ## Block scalars -/

/-- What becomes of the line ends at the end of a block scalar. -/
inductive Chomping where
  | strip
  | clip
  | keep
deriving DecidableEq

/-- The digit of an indentation indicator. -/
def indentDigit? (c : Cursor) : Option Nat :=
  match c.next with
  | some x => if '0' ≤ x ∧ x ≤ '9' then some (x.toNat - 48) else none
  | none => none

/-- The sign of a chomping indicator. -/
def chomping? (c : Cursor) : Option Chomping :=
  match c.next with
  | some '+' => some .keep
  | some '-' => some .strip
  | _ => none

/-- Reads an indentation indicator, if one is there. -/
def takeIndentDigit (start : Mark) (c : Cursor) : Except SyntaxError (Nat × Cursor) :=
  match indentDigit? c with
  | none => .ok (0, c)
  | some 0 => .error (.within .blockScalar start .zeroIndentation c.mark)
  | some n => .ok (n, c.skip 1)

/-- Reads the chomping and indentation indicators, in either order. -/
def takeBlockHeader (start : Mark) (c : Cursor) :
    Except SyntaxError (Chomping × Nat × Cursor) :=
  match chomping? c with
  | some chomping => do
    let (n, c') ← takeIndentDigit start (c.skip 1)
    return (chomping, n, c')
  | none => do
    let (n, c') ← takeIndentDigit start c
    if n = 0 then return (.clip, 0, c')
    else
      match chomping? c' with
      | some chomping => return (chomping, n, c'.skip 1)
      | none => return (.clip, n, c')

/-- Passes over the indentation and the empty lines before a line with text. While the
indentation is not known (`indent = 0`) every space counts to it, and the greatest column
reached is noted. -/
def takeEmptyLines (start : Mark) (indent : Nat) :
    (fuel : Nat) → (breaks : List Char) → (widest : Nat) → (stop : Mark) → Cursor →
    Except SyntaxError (List Char × Nat × Mark × Cursor)
  | 0, breaks, widest, stop, c => .ok (breaks, widest, stop, c)
  | fuel + 1, breaks, widest, stop, c =>
    let spaces := (c.rest.takeWhile (· = ' ')).length
    let c' := c.skip (if indent = 0 then spaces else min spaces (indent - c.column))
    let widest' := max widest c'.column
    if (indent = 0 || c'.column < indent) && c'.sees '\t' then
      .error (.within .blockScalar start .tabIndentation c'.mark)
    else if c'.next.any isBreak then
      let (text, c'') := c'.takeBreak
      takeEmptyLines start indent fuel (breaks ++ text) widest' c''.mark c''
    else .ok (breaks, widest', stop, c')

/-- The text between two lines of a block scalar. In a folded scalar a line end between two lines
that do not start with a blank is folded. -/
def betweenLines (literal : Bool) (first later : List Char) (blankBefore blankAfter : Bool) :
    List Char :=
  if !literal && first.head? = some '\n' && !blankBefore && !blankAfter then
    (if later.isEmpty then [' '] else []) ++ later
  else first ++ later

/-- A block scalar being read. -/
structure BlockText where
  text : List Char
  /-- The line end after the last line. -/
  first : List Char
  /-- The line ends after that. -/
  later : List Char
  /-- Whether the last line starts with a blank. -/
  blank : Bool
  stop : Mark

/-- Reads the lines of a block scalar. -/
def blockLines (literal : Bool) (start : Mark) (indent : Nat) :
    (fuel : Nat) → BlockText → Cursor → Except SyntaxError (BlockText × Cursor)
  | 0, b, c => .ok (b, c)
  | fuel + 1, b, c =>
    if c.column ≠ indent || c.next.isNone then .ok (b, c)
    else do
      let blank := c.next.any isBlank
      let line := c.rest.takeWhile fun x => !isBreak x
      let between := betweenLines literal b.first b.later b.blank blank
      let (first, c') := (c.skip line.length).takeBreak
      let (later, _, stop, c'') ← takeEmptyLines start indent (c'.rest.length + 1) [] 0 c'.mark c'
      blockLines literal start indent fuel
        ⟨b.text ++ between ++ line, first, later, blank, stop⟩ c''

/-- Reads a block scalar inside a block of indentation `parent`, which is -1 at the top. -/
def scanBlock (literal : Bool) (parent : Int) (c : Cursor) :
    Except SyntaxError (Token × Cursor) := do
  let start := c.mark
  let (chomping, increment, c) ← takeBlockHeader start (c.skip 1)
  let c := c.skipWhile isBlank
  let c := if c.sees '#' then c.skipToLineEnd else c
  if !isLineEnd c.next then throw (.within .blockScalar start .noCommentOrBreak c.mark)
  let c := c.skipBreak
  let given : Nat :=
    if increment = 0 then 0
    else if 0 ≤ parent then (parent + increment).toNat else increment
  let (breaks, widest, stop, c) ← takeEmptyLines start given (c.rest.length + 1) [] 0 c.mark c
  let indent := if given = 0 then max (max widest (parent + 1).toNat) 1 else given
  let (b, c) ← blockLines literal start indent (c.rest.length + 1) ⟨[], [], breaks, false, stop⟩ c
  let tail := match chomping with
    | .strip => []
    | .clip => b.first
    | .keep => b.first ++ b.later
  return (⟨.scalar (String.ofList (b.text ++ tail)) .block, start, b.stop⟩, c)

end DesignTokens.Yaml
