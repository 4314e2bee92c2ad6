import DesignTokens.Text.Units
import DesignTokens.Yaml.Token.Property
import DesignTokens.Yaml.Token.Scalar

/-!
# The tokens of a YAML text

Tokens are fetched one after the other and wait in a queue. A token that may turn out to begin
the key of a mapping is remembered as a pending key; a colon after it puts a key token, and
perhaps the start of a block mapping, in front of it. So the first token of the queue is passed on
only when no pending key begins with it.

`tokenize` gives all tokens up to the end of the text or up to an error.
-/

namespace DesignTokens.Yaml

/-- A token that may begin a key. -/
structure PendingKey where
  /-- Whether anything but a key is an error here. -/
  required : Bool
  /-- The number of the token in the text. -/
  number : Nat
  mark : Mark
deriving Repr

/-- The state between two tokens. -/
structure Scanner where
  cursor : Cursor
  /-- Tokens that are not passed on yet. -/
  queue : List Token
  /-- The number of tokens passed on. -/
  passed : Nat
  /-- The pending key of each level of flow collections, the innermost first. -/
  keys : List (Option PendingKey)
  /-- The column of the current block, -1 outside of all blocks. -/
  indent : Int
  /-- The columns of the blocks around it. -/
  indents : List Int
  /-- Whether a key may begin here. -/
  keyAllowed : Bool

namespace Scanner

/-- The state at the start of a text. -/
def start (text : List Char) : Scanner :=
  { cursor := .ofText text, queue := [⟨.streamStart, .start, .start⟩], passed := 0
    keys := [none], indent := -1, indents := [], keyAllowed := true }

/-- Whether the cursor is inside a flow collection. -/
def inFlow (s : Scanner) : Bool :=
  1 < s.keys.length

/-- The place of the cursor. -/
def mark (s : Scanner) : Mark :=
  s.cursor.mark

/-- Appends a token to the queue. -/
def enqueue (s : Scanner) (t : Token) : Scanner :=
  { s with queue := s.queue ++ [t] }

/-- Appends a token of the next `n` characters. -/
def take (s : Scanner) (kind : TokenKind) (n : Nat) : Scanner :=
  let c := s.cursor.skip n
  { s with queue := s.queue ++ [⟨kind, s.mark, c.mark⟩], cursor := c }

/-- Puts a token before the token with the given number. -/
def insertBefore (s : Scanner) (number : Nat) (t : Token) : Scanner :=
  let place := number - s.passed
  { s with queue := s.queue.take place ++ t :: s.queue.drop place }

/-! ## Pending keys -/

/-- The error of a required key without a colon. -/
def missingColon (s : Scanner) (k : PendingKey) : SyntaxError :=
  .within .simpleKey k.mark .noSimpleKeyColon s.mark

/-- Whether a key can no longer be one: it stays on one line and within 1024 characters. -/
def isStale (s : Scanner) (k : PendingKey) : Bool :=
  k.mark.line < s.mark.line || k.mark.index + 1024 < s.mark.index

/-- Drops the pending keys that can no longer be keys. -/
def dropStale (s : Scanner) : Except SyntaxError Scanner := do
  let keys ← s.keys.mapM fun key =>
    match key with
    | none => .ok none
    | some k =>
      if !s.isStale k then .ok (some k)
      else if k.required then .error (s.missingColon k)
      else .ok none
  return { s with keys := keys }

/-- Drops the pending key of the current level. -/
def dropKey (s : Scanner) : Except SyntaxError Scanner :=
  match s.keys with
  | some k :: keys =>
    if k.required then .error (s.missingColon k) else .ok { s with keys := none :: keys }
  | _ => .ok s

/-- Remembers that the next token may begin a key. -/
def saveKey (s : Scanner) : Except SyntaxError Scanner :=
  if !s.keyAllowed then .ok s
  else do
    let s ← s.dropKey
    let key : PendingKey :=
      { required := !s.inFlow && s.indent == s.cursor.column
        number := s.passed + s.queue.length, mark := s.mark }
    return { s with keys := some key :: s.keys.drop 1 }

/-! ## Indentation -/

/-- Opens a block at a column, if that is further in than the current block. Its token goes before
the token with the given number, or to the end of the queue. -/
def openBlock (s : Scanner) (column : Nat) (before : Option Nat) (kind : TokenKind) (mark : Mark) :
    Scanner :=
  if s.inFlow || (column : Int) ≤ s.indent then s
  else
    let s' := { s with indents := s.indent :: s.indents, indent := column }
    let t : Token := ⟨kind, mark, mark⟩
    match before with
    | some number => s'.insertBefore number t
    | none => s'.enqueue t

/-- Closes blocks one by one from the innermost. -/
def closeEach (mark : Mark) (column indent : Int) :
    (indents : List Int) → List Token × Int × List Int
  | [] => ([], indent, [])
  | outer :: indents =>
    if indent ≤ column then ([], indent, outer :: indents)
    else
      let (tokens, rest) := closeEach mark column outer indents
      (⟨.blockEnd, mark, mark⟩ :: tokens, rest)

/-- Closes the blocks that are further in than a column. -/
def closeBlocks (s : Scanner) (column : Int) : Scanner :=
  if s.inFlow then s
  else
    let (tokens, indent, indents) := closeEach s.mark column s.indent s.indents
    { s with queue := s.queue ++ tokens, indent := indent, indents := indents }

/-! ## Fetching a token -/

/-- Passes over blanks, comments and line ends. Outside of flow collections a tab does not count as
a blank where a key may begin, and a key may begin on a new line. -/
def skipGaps : (fuel : Nat) → Scanner → Scanner
  | 0, s => s
  | fuel + 1, s =>
    let c := s.cursor
    let c := if c.mark.index == 0 && c.next.any (fun x => x.toNat == 0xFEFF) then c.skip 1 else c
    let c := c.skipWhile fun x => x = ' ' || ((s.inFlow || !s.keyAllowed) && x = '\t')
    let c := if c.sees '#' then c.skipToLineEnd else c
    if c.next.any isBreak then
      skipGaps fuel { s with cursor := c.skipBreak, keyAllowed := s.keyAllowed || !s.inFlow }
    else { s with cursor := c }

/-- Ends the text: the open blocks are closed on a line of their own. -/
def fetchEnd (s : Scanner) : Except SyntaxError Scanner := do
  let m := s.mark
  let m := if m.column = 0 then m else { m with line := m.line + 1, column := 0 }
  let s := { s with cursor := { s.cursor with mark := m } }
  let s ← (s.closeBlocks (-1)).dropKey
  return ({ s with keyAllowed := false }).take .streamEnd 0

/-- Fetches a directive. -/
def fetchDirective (s : Scanner) : Except SyntaxError Scanner := do
  let s ← (s.closeBlocks (-1)).dropKey
  let (t, c) ← scanDirective s.cursor
  return { s with queue := s.queue ++ [t], cursor := c, keyAllowed := false }

/-- Fetches the marker of a document's start or end. -/
def fetchMarker (s : Scanner) (kind : TokenKind) : Except SyntaxError Scanner := do
  let s ← (s.closeBlocks (-1)).dropKey
  return ({ s with keyAllowed := false }).take kind 3

/-- Fetches an opening bracket. -/
def fetchOpen (s : Scanner) (kind : TokenKind) : Except SyntaxError Scanner := do
  let s ← s.saveKey
  return ({ s with keys := none :: s.keys, keyAllowed := true }).take kind 1

/-- Fetches a closing bracket. -/
def fetchClose (s : Scanner) (kind : TokenKind) : Except SyntaxError Scanner := do
  let s ← s.dropKey
  let keys := if s.inFlow then s.keys.drop 1 else s.keys
  return ({ s with keys := keys, keyAllowed := false }).take kind 1

/-- Fetches a comma between the entries of a flow collection. -/
def fetchFlowEntry (s : Scanner) : Except SyntaxError Scanner := do
  let s ← s.dropKey
  return ({ s with keyAllowed := true }).take .flowEntry 1

/-- Fetches the dash of a block sequence's entry. -/
def fetchBlockEntry (s : Scanner) : Except SyntaxError Scanner := do
  if !s.inFlow && !s.keyAllowed then throw (.plain .blockEntryNotAllowed s.mark)
  let s ← (s.openBlock s.cursor.column none .blockSequenceStart s.mark).dropKey
  return ({ s with keyAllowed := true }).take .blockEntry 1

/-- Fetches the question mark of an explicit key. -/
def fetchKey (s : Scanner) : Except SyntaxError Scanner := do
  if !s.inFlow && !s.keyAllowed then throw (.plain .keyNotAllowed s.mark)
  let s ← (s.openBlock s.cursor.column none .blockMappingStart s.mark).dropKey
  return ({ s with keyAllowed := !s.inFlow }).take .key 1

/-- Fetches the colon before a value. -/
def fetchValue (s : Scanner) : Except SyntaxError Scanner :=
  match s.keys with
  | some k :: keys =>
    let s := s.insertBefore k.number ⟨.key, k.mark, k.mark⟩
    let s := s.openBlock k.mark.column (some k.number) .blockMappingStart k.mark
    .ok (({ s with keys := none :: keys, keyAllowed := false }).take .value 1)
  | _ =>
    if !s.inFlow && !s.keyAllowed then .error (.plain .valueNotAllowed s.mark)
    else
      let s := s.openBlock s.cursor.column none .blockMappingStart s.mark
      .ok (({ s with keyAllowed := !s.inFlow }).take .value 1)

/-- Fetches a token that may begin a key, with the function that reads it. -/
def fetchSaved (s : Scanner) (scan : Cursor → Except SyntaxError (Token × Cursor)) :
    Except SyntaxError Scanner := do
  let s ← s.saveKey
  let (t, c) ← scan s.cursor
  return { s with queue := s.queue ++ [t], cursor := c, keyAllowed := false }

/-- Fetches a block scalar. -/
def fetchBlockScalar (s : Scanner) (literal : Bool) : Except SyntaxError Scanner := do
  let s ← s.dropKey
  let (t, c) ← scanBlock literal s.indent s.cursor
  return { s with queue := s.queue ++ [t], cursor := c, keyAllowed := true }

/-- Fetches a plain scalar; after one that ends with its line a key may begin. -/
def fetchPlain (s : Scanner) : Except SyntaxError Scanner := do
  let s ← s.saveKey
  let (t, broken, c) ← scanPlain s.inFlow (s.indent + 1) s.cursor
  return { s with queue := s.queue ++ [t], cursor := c, keyAllowed := broken }

/-- Whether a plain scalar may begin with a character, given the one after it. -/
def startsPlain (flow : Bool) (x : Char) (after : Option Char) : Bool :=
  let special := x = '-' || x = '?' || x = ':' || isFlowMark x || x = '#' || x = '&' || x = '*' ||
    x = '!' || x = '|' || x = '>' || x = '\'' || x = '"' || x = '%' || x = '@' || x.toNat = 0x60
  (!isGap (some x) && !special) || (x = '-' && !after.any isBlank) ||
    (!flow && (x = '?' || x = ':') && !isGap after)

/-- Fetches the token at the cursor, which stands at a character. -/
def fetchAt (s : Scanner) (x : Char) : Except SyntaxError Scanner :=
  let after := s.cursor.ahead 1
  let flow := s.inFlow
  if s.cursor.column = 0 && x = '%' then s.fetchDirective
  else if s.cursor.atMarker '-' then s.fetchMarker .documentStart
  else if s.cursor.atMarker '.' then s.fetchMarker .documentEnd
  else if x = '[' then s.fetchOpen .flowSequenceStart
  else if x = '{' then s.fetchOpen .flowMappingStart
  else if x = ']' then s.fetchClose .flowSequenceEnd
  else if x = '}' then s.fetchClose .flowMappingEnd
  else if x = ',' then s.fetchFlowEntry
  else if x = '-' && isGap after then s.fetchBlockEntry
  else if x = '?' && (flow || isGap after) then s.fetchKey
  else if x = ':' && (flow || isGap after) then s.fetchValue
  else if x = '*' then s.fetchSaved (scanName .aliasName .aliasName)
  else if x = '&' then s.fetchSaved (scanName .anchor .anchor)
  else if x = '!' then s.fetchSaved (scanTag flow)
  else if x = '|' && !flow then s.fetchBlockScalar true
  else if x = '>' && !flow then s.fetchBlockScalar false
  else if x = '\'' then s.fetchSaved (scanQuoted true)
  else if x = '"' then s.fetchSaved (scanQuoted false)
  else if startsPlain flow x after then s.fetchPlain
  else .error (.within .nextToken s.mark .noTokenStart s.mark)

/-- Fetches the next token. -/
def fetch (s : Scanner) : Except SyntaxError Scanner := do
  let s ← (skipGaps (s.cursor.rest.length + 1) s).dropStale
  let s := s.closeBlocks s.cursor.column
  match s.cursor.next with
  | none => s.fetchEnd
  | some x => s.fetchAt x

/-- Whether a pending key may begin with the first token of the queue. -/
def headPending (s : Scanner) : Bool :=
  s.keys.any fun key => key.any fun k => k.number == s.passed

/-- The tokens from a state on, and the error that ends them. -/
def run : (fuel : Nat) → Scanner → List Token × Option SyntaxError
  | 0, _ => ([], none)
  | fuel + 1, s =>
    match s.queue with
    | [] =>
      match s.fetch with
      | .error e => ([], some e)
      | .ok s' => run fuel s'
    | t :: queue =>
      match s.dropStale with
      | .error e => ([], some e)
      | .ok s' =>
        if s'.headPending then
          match s'.fetch with
          | .error e => ([], some e)
          | .ok s'' => run fuel s''
        else if t.kind = .streamEnd then ([t], none)
        else
          let (tokens, e) := run fuel { s' with queue := queue, passed := s'.passed + 1 }
          (t :: tokens, e)

end Scanner

/-! ## Whole texts -/

/-- A character that a YAML text may hold. -/
def isAllowed (c : Char) : Bool :=
  let n := c.toNat
  n == 0x09 || n == 0x0A || n == 0x0D || (0x20 ≤ n && n ≤ 0x7E) || n == 0x85 ||
    (0xA0 ≤ n && n ≤ 0xD7FF) || (0xE000 ≤ n && n ≤ 0xFFFD) || 0x10000 ≤ n

/-- The byte offset of the first character that is not allowed. -/
def refusedOffset? (text : List Char) : Option Nat :=
  let allowed := text.takeWhile isAllowed
  if allowed.length < text.length then some (Text.bytes allowed) else none

/-- The tokens of a text and the error that ends them. A byte order mark at the start is not part
of the text. -/
def tokenize (text : List Char) : List Token × Option SyntaxError :=
  match refusedOffset? text with
  | some offset => ([], some ⟨.controlCharacter, .start, offset, none⟩)
  | none =>
    let body := match text with
      | c :: rest => if c.toNat = 0xFEFF then rest else text
      | [] => []
    Scanner.run (20 * body.length + 40) (.start body)

end DesignTokens.Yaml
