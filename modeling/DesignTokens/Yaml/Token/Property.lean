import DesignTokens.Yaml.SyntaxError
import DesignTokens.Yaml.Token
import DesignTokens.Yaml.Token.Scalar

/-!
# Anchors, tags and directives

The parts of a YAML text that stand before the content of nodes and documents.
-/

namespace DesignTokens.Yaml

/-! ## Anchors and aliases -/

/-- Whether a name may end before this character. -/
def endsName (c : Option Char) : Bool :=
  isGap c || c.any fun x =>
    x = '?' || x = ':' || x = ',' || x = ']' || x = '}' || x = '%' || x = '@' || x.toNat = 0x60

/-- Reads the name of an anchor or an alias, from the sign before it on. -/
def scanName (context : Context) (kind : String → TokenKind) (c : Cursor) :
    Except SyntaxError (Token × Cursor) :=
  let name := (c.rest.drop 1).takeWhile isNameChar
  let c' := c.skip (1 + name.length)
  if name.isEmpty || !endsName c'.next then
    .error (.within context c.mark .noAnchorName c'.mark)
  else .ok (⟨kind (String.ofList name), c.mark, c'.mark⟩, c')

/-! ## Tags -/

/-- The byte of an ASCII character. -/
def asciiByte (c : Char) : UInt8 :=
  UInt8.ofNat c.toNat

/-- A character that a tag may hold; commas and brackets only between angle brackets and in
directives. -/
def isUriChar (brackets : Bool) (c : Char) : Bool :=
  isNameChar c || c = ';' || c = '/' || c = '?' || c = ':' || c = '@' || c = '&' || c = '=' ||
    c = '+' || c = '$' || c = '.' || c = '%' || c = '!' || c = '~' || c = '*' || c = '\'' ||
    c = '(' || c = ')' || (brackets && (c = ',' || c = '[' || c = ']'))

/-- The number of bytes of the character that a byte starts. -/
def leadingWidth? (byte : Nat) : Option Nat :=
  if byte < 0x80 then some 1
  else if 0xC0 ≤ byte ∧ byte < 0xE0 then some 2
  else if 0xE0 ≤ byte ∧ byte < 0xF0 then some 3
  else if 0xF0 ≤ byte ∧ byte < 0xF8 then some 4
  else none

/-- Reads one byte written as a percent sign and two digits. -/
def takeOctet (context : Context) (start : Mark) (c : Cursor) : Except SyntaxError (Nat × Cursor) :=
  match c.sees '%', hexNumber? 2 0 (c.rest.drop 1) with
  | true, some n => .ok (n, c.skip 3)
  | _, _ => .error (.within context start .noEscapedOctet c.mark)

/-- Reads the `count` bytes that continue a character. -/
def takeTrailing (context : Context) (start : Mark) :
    (count : Nat) → Cursor → Except SyntaxError (TagText × Cursor)
  | 0, c => .ok ([], c)
  | count + 1, c => do
    let (n, c') ← takeOctet context start c
    if ¬ (0x80 ≤ n ∧ n < 0xC0) then throw (.within context start .badTrailingOctet c.mark)
    let (more, c'') ← takeTrailing context start count c'
    return (UInt8.ofNat n :: more, c'')

/-- Reads the bytes of one character. -/
def takeEscapedChar (context : Context) (start : Mark) (c : Cursor) :
    Except SyntaxError (TagText × Cursor) := do
  let (n, c') ← takeOctet context start c
  match leadingWidth? n with
  | none => throw (.within context start .badLeadingOctet c.mark)
  | some width =>
    let (more, c'') ← takeTrailing context start (width - 1) c'
    return (UInt8.ofNat n :: more, c'')

/-- Reads the characters of a tag or of its expansion. -/
def takeUriChars (brackets : Bool) (context : Context) (start : Mark) :
    (fuel : Nat) → Cursor → Except SyntaxError (TagText × Cursor)
  | 0, c => .ok ([], c)
  | fuel + 1, c =>
    match c.next with
    | none => .ok ([], c)
    | some x =>
      if !isUriChar brackets x then .ok ([], c)
      else if x = '%' then do
        let (bytes, c') ← takeEscapedChar context start c
        let (more, c'') ← takeUriChars brackets context start fuel c'
        return (bytes ++ more, c'')
      else do
        let (more, c') ← takeUriChars brackets context start fuel (c.skip 1)
        return (asciiByte x :: more, c')

/-- Reads a tag after `head`, of which all but the leading bang belongs to it. -/
def takeUri (brackets : Bool) (context : Context) (head : TagText) (start : Mark) (c : Cursor) :
    Except SyntaxError (TagText × Cursor) := do
  let (bytes, c') ← takeUriChars brackets context start (c.rest.length + 1) c
  if head.isEmpty && bytes.isEmpty then throw (.within context start .noTagUri c'.mark)
  return (head.drop 1 ++ bytes, c')

/-- Reads a tag handle: a bang, perhaps a name, perhaps another bang. -/
def takeHandle (inDirective : Bool) (start : Mark) (c : Cursor) :
    Except SyntaxError (TagText × Cursor) :=
  if !c.sees '!' then
    .error (.within (if inDirective then .tagDirectiveHandle else .tag) start .noTagBang c.mark)
  else
    let name := (c.rest.drop 1).takeWhile isNameChar
    let c' := c.skip (1 + name.length)
    let handle := asciiByte '!' :: name.map asciiByte
    if c'.sees '!' then .ok (handle ++ [asciiByte '!'], c'.skip 1)
    else if inDirective && !name.isEmpty then
      .error (.within .tagDirectiveBang start .noTagBang c'.mark)
    else .ok (handle, c')

/-- Reads the handle and the suffix of a tag: verbatim between angle brackets, with a handle, or
with a suffix alone. A lone bang is the suffix of an empty handle. -/
def takeTagParts (c : Cursor) : Except SyntaxError (TagText × TagText × Cursor) :=
  let bang := asciiByte '!'
  if c.ahead 1 == some '<' then do
    let (suffix, c') ← takeUri true .tagUri [] c.mark (c.skip 2)
    if !c'.sees '>' then throw (.within .tag c.mark .noVerbatimEnd c'.mark)
    return ([], suffix, c'.skip 1)
  else do
    let (handle, c') ← takeHandle false c.mark c
    if 2 ≤ handle.length && handle.getLast? == some bang then
      let (suffix, c'') ← takeUri false .tagUri [] c.mark c'
      return (handle, suffix, c'')
    else
      let (suffix, c'') ← takeUri false .tagUri handle c.mark c'
      if suffix.isEmpty then return ([], [bang], c'') else return ([bang], suffix, c'')

/-- Reads a tag. -/
def scanTag (flow : Bool) (c : Cursor) : Except SyntaxError (Token × Cursor) := do
  let (handle, suffix, c') ← takeTagParts c
  if !(flow && c'.sees ',') && !isGap c'.next then
    throw (.within .tag c.mark .noBlankOrBreak c'.mark)
  return (⟨.tag handle suffix, c.mark, c'.mark⟩, c')

/-! ## Directives -/

/-- Reads a number of at most nine digits of a version. -/
def takeVersionNumber (start : Mark) (c : Cursor) : Except SyntaxError (Nat × Cursor) :=
  let digits := c.rest.takeWhile fun x => '0' ≤ x && x ≤ '9'
  if digits.isEmpty then .error (.within .versionDirective start .noVersionNumber c.mark)
  else if 9 < digits.length then
    .error (.within .versionDirective start .longVersion (c.skip 9).mark)
  else .ok (digits.foldl (fun n x => n * 10 + (x.toNat - 48)) 0, c.skip digits.length)

/-- Reads the version of a version directive. -/
def takeVersion (start : Mark) (c : Cursor) : Except SyntaxError (TokenKind × Cursor) := do
  let (major, c) ← takeVersionNumber start (c.skipWhile isBlank)
  if !c.sees '.' then throw (.within .versionDirective start .noVersionDot c.mark)
  let (minor, c) ← takeVersionNumber start (c.skip 1)
  return (.versionDirective major minor, c)

/-- Reads the handle and the expansion of a tag directive. -/
def takeTagDirective (start : Mark) (c : Cursor) : Except SyntaxError (TokenKind × Cursor) := do
  let (handle, c) ← takeHandle true start (c.skipWhile isBlank)
  if !c.next.any isBlank then throw (.within .tagDirective start .noBlank c.mark)
  let (expansion, c) ← takeUri true .tagDirectiveUri [] start (c.skipWhile isBlank)
  if !isGap c.next then throw (.within .tagDirective start .noBlankOrBreak c.mark)
  return (.tagDirective handle expansion, c)

/-- Reads a directive and the rest of its line. -/
def scanDirective (c : Cursor) : Except SyntaxError (Token × Cursor) := do
  let start := c.mark
  let name := (c.rest.drop 1).takeWhile isNameChar
  let c := c.skip (1 + name.length)
  if name.isEmpty then throw (.within .directive start .noDirectiveName c.mark)
  if !isGap c.next then throw (.within .directive start .badDirectiveName c.mark)
  let (kind, c) ←
    if name = ['Y', 'A', 'M', 'L'] then takeVersion start c
    else if name = ['T', 'A', 'G'] then takeTagDirective start c
    else throw (.within .directive start .unknownDirective c.mark)
  let stop := c.mark
  let c := c.skipWhile isBlank
  let c := if c.sees '#' then c.skipToLineEnd else c
  if !isLineEnd c.next then throw (.within .directive start .noCommentOrBreak c.mark)
  return (⟨kind, start, stop⟩, c.skipBreak)

end DesignTokens.Yaml
