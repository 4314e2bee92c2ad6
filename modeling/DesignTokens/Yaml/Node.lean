import DesignTokens.Yaml.SyntaxError
import DesignTokens.Yaml.Token.Stream

/-!
# YAML nodes

`Document.ofText` reads the nodes of the first document of a text. Where reading fails the tree is
cut: it holds all that stands before the failure, a `cut` node stands where it is met, and the
failure is kept beside the tree.

An anchor gets a number when its node begins: how many different names were anchored before. An
alias stands for the number that its name has where it stands, and a number for the node that
got it last; a name that is anchored again frees a number, so that two names may come to share one.
-/

namespace DesignTokens.Yaml

/-- A node of a document. -/
inductive Node where
  /-- A scalar with its tag. -/
  | scalar (mark : Mark) (tag : Option TagText) (text : String) (style : ScalarStyle)
  /-- A sequence with its tag. -/
  | sequence (mark : Mark) (tag : Option TagText) (items : List Node)
  /-- A mapping with its tag. -/
  | mapping (mark : Mark) (tag : Option TagText) (entries : List (Node × Node))
  /-- Another place of the node with an anchor number. -/
  | aliasOf (mark : Mark) (number : Nat)
  /-- No content at all. -/
  | void
  /-- The place where reading failed. -/
  | cut
deriving Repr, Inhabited

/-- Why reading stopped. -/
inductive Failure where
  /-- The text is no YAML. -/
  | malformed (e : SyntaxError)
  /-- An alias of a name that is not anchored before it. -/
  | unknownAnchor (mark : Mark)
deriving Repr

/-- A node that got an anchor number; `order` counts the anchors of the document. -/
structure Anchored where
  number : Nat
  order : Nat
  node : Node

/-- The state of reading nodes. -/
structure Reader where
  /-- The tokens not read yet. -/
  tokens : List Token
  /-- The error after the last of them. -/
  ending : Option SyntaxError
  /-- The tag handles in force and their expansions. -/
  handles : List (TagText × TagText)
  /-- The anchored names and their numbers. -/
  anchors : List (String × Nat)
  /-- How many anchors there were. -/
  count : Nat
  /-- The anchored nodes read so far. -/
  anchored : List Anchored
  /-- Why reading stopped, once it has. -/
  failure : Option Failure

namespace Reader

/-- Stops with a failure. -/
def fail (r : Reader) (f : Failure) : Reader :=
  { r with failure := some f }

/-- Stops with a syntax error. -/
def malformed (r : Reader) (e : SyntaxError) : Reader :=
  r.fail (.malformed e)

/-- Passes over the next token. -/
def skip (r : Reader) : Reader :=
  { r with tokens := r.tokens.drop 1 }

/-- Stops where the tokens end: with the error that ended them. -/
def exhausted (r : Reader) : Reader :=
  match r.ending with
  | some e => r.malformed e
  | none => r.malformed (.plain .endOfText .start)

/-- Gives an anchor its number. -/
def anchor (r : Reader) : Option String → Option (Nat × Nat) × Reader
  | none => (none, r)
  | some name =>
    let number := r.anchors.length
    let anchors := (name, number) :: r.anchors.filter fun a => a.1 != name
    (some (number, r.count), { r with anchors := anchors, count := r.count + 1 })

/-- Notes an anchored node. -/
def note (r : Reader) (given : Option (Nat × Nat)) (n : Node) : Reader :=
  match given with
  | none => r
  | some (number, order) => { r with anchored := ⟨number, order, n⟩ :: r.anchored }

end Reader

/-- The properties before the content of a node. -/
structure Properties where
  anchor : Option String
  tag : Option (TagText × TagText × Mark)
  /-- Where the first of them stands. -/
  mark : Option Mark

/-- Reads an anchor and a tag, in either order. None when the tokens end. -/
def takeProperties (r : Reader) : Option Properties × Reader :=
  match r.tokens with
  | [] => (none, r.exhausted)
  | t :: rest =>
    let one := r.skip
    match t.kind with
    | .anchor name =>
      match rest with
      | [] => (none, one.exhausted)
      | u :: _ =>
        match u.kind with
        | .tag handle suffix =>
          let two := one.skip
          if two.tokens.isEmpty then (none, two.exhausted)
          else (some ⟨some name, some (handle, suffix, u.start), some t.start⟩, two)
        | _ => (some ⟨some name, none, some t.start⟩, one)
    | .tag handle suffix =>
      match rest with
      | [] => (none, one.exhausted)
      | u :: _ =>
        match u.kind with
        | .anchor name =>
          let two := one.skip
          if two.tokens.isEmpty then (none, two.exhausted)
          else (some ⟨some name, some (handle, suffix, t.start), some t.start⟩, two)
        | _ => (some ⟨none, some (handle, suffix, t.start), some t.start⟩, one)
    | _ => (some ⟨none, none, none⟩, r)

/-- The full tag of a handle and a suffix. -/
def fullTag (handles : List (TagText × TagText)) (handle suffix : TagText) : Option TagText :=
  if handle.isEmpty then some suffix
  else (handles.find? fun h => h.1 == handle).map fun h => h.2 ++ suffix

/-- The empty scalar at a place. -/
def emptyScalar (mark : Mark) : Node :=
  .scalar mark none "" .plain

/-- A node without content: allowed only after properties. -/
def readEmpty (block : Bool) (p : Properties) (tag : Option TagText) (t : Token) (r : Reader) :
    Node × Reader :=
  let mark := p.mark.getD t.start
  if p.anchor.isSome || tag.isSome then
    let n := Node.scalar mark tag "" .plain
    let (given, r) := r.anchor p.anchor
    (n, r.note given n)
  else
    (.cut, r.malformed
      (.within (if block then .blockNode else .flowNode) mark .noNodeContent t.start))

mutual

/-- Reads a node. Block collections are read where `block` holds, and the entries of a sequence
without a block of its own where `indentless` holds. -/
def readNode : (fuel : Nat) → (block indentless : Bool) → Reader → Node × Reader
  | 0, _, _, r => (.cut, r.exhausted)
  | fuel + 1, block, indentless, r =>
    match r.tokens with
    | [] => (.cut, r.exhausted)
    | t :: _ =>
      match t.kind with
      | .aliasName name =>
        match r.anchors.find? fun a => a.1 == name with
        | some (_, number) => (.aliasOf t.start number, r.skip)
        | none => (.cut, r.skip.fail (.unknownAnchor t.start))
      | _ =>
        match takeProperties r with
        | (none, r) => (.cut, r)
        | (some p, r) =>
          match p.tag with
          | none => readContent fuel block indentless p none r
          | some (handle, suffix, mark) =>
            match fullTag r.handles handle suffix with
            | none =>
              (.cut, r.malformed (.within .node (p.mark.getD mark) .undefinedHandle mark))
            | some tag => readContent fuel block indentless p (some tag) r

/-- Reads the content of a node after its properties. -/
def readContent : (fuel : Nat) → (block indentless : Bool) → Properties → Option TagText → Reader →
    Node × Reader
  | 0, _, _, _, _, r => (.cut, r.exhausted)
  | fuel + 1, block, indentless, p, tag, r =>
    match r.tokens with
    | [] => (.cut, r.exhausted)
    | t :: _ =>
      let mark := p.mark.getD t.start
      let collection (node : List Node → Node) (read : Reader → List Node × Reader) (r : Reader) :
          Node × Reader :=
        let (given, r) := r.anchor p.anchor
        let (items, r) := read r
        (node items, r.note given (node items))
      let mapping (read : Reader → List (Node × Node) × Reader) (r : Reader) : Node × Reader :=
        let (given, r) := r.anchor p.anchor
        let (entries, r) := read r
        let n := Node.mapping mark tag entries
        (n, r.note given n)
      let scalar (n : Node) (r : Reader) : Node × Reader :=
        let (given, r) := r.anchor p.anchor
        (n, r.note given n)
      match t.kind with
      | .scalar text style =>
        -- A lone bang leaves a scalar without a tag.
        let tag := if tag == some (tagText "!") then none else tag
        scalar (.scalar mark tag text style) r.skip
      | .flowSequenceStart =>
        collection (.sequence mark tag) (readFlowSequence fuel t.start true) r.skip
      | .flowMappingStart => mapping (readFlowMapping fuel t.start true) r.skip
      | .blockEntry =>
        if indentless then collection (.sequence mark tag) (readIndentless fuel) r
        else readEmpty block p tag t r
      | .blockSequenceStart =>
        if block then collection (.sequence mark tag) (readBlockSequence fuel t.start) r.skip
        else readEmpty block p tag t r
      | .blockMappingStart =>
        if block then mapping (readBlockMapping fuel t.start) r.skip
        else readEmpty block p tag t r
      | _ => readEmpty block p tag t r

/-- Reads the entries of a block sequence that began at `start`, to its end. -/
def readBlockSequence : (fuel : Nat) → (start : Mark) → Reader → List Node × Reader
  | 0, _, r => ([.cut], r.exhausted)
  | fuel + 1, start, r =>
    match r.tokens with
    | [] => ([.cut], r.exhausted)
    | t :: rest =>
      match t.kind with
      | .blockEntry =>
        let r := r.skip
        match rest with
        | [] => ([.cut], r.exhausted)
        | u :: _ =>
          let (n, r) :=
            if u.kind = .blockEntry ∨ u.kind = .blockEnd then (emptyScalar t.stop, r)
            else readNode fuel true false r
          if r.failure.isSome then ([n], r)
          else
            let (ns, r) := readBlockSequence fuel start r
            (n :: ns, r)
      | .blockEnd => ([], r.skip)
      | _ => ([.cut], r.malformed (.within .blockSequence start .noDash t.start))

/-- Reads the entries of a sequence without a block of its own. -/
def readIndentless : (fuel : Nat) → Reader → List Node × Reader
  | 0, r => ([.cut], r.exhausted)
  | fuel + 1, r =>
    match r.tokens with
    | [] => ([.cut], r.exhausted)
    | t :: rest =>
      match t.kind with
      | .blockEntry =>
        let r := r.skip
        match rest with
        | [] => ([.cut], r.exhausted)
        | u :: _ =>
          let (n, r) :=
            if u.kind = .blockEntry ∨ u.kind = .key ∨ u.kind = .value ∨ u.kind = .blockEnd then
              (emptyScalar t.stop, r)
            else readNode fuel true false r
          if r.failure.isSome then ([n], r)
          else
            let (ns, r) := readIndentless fuel r
            (n :: ns, r)
      | _ => ([], r)

/-- Reads the entries of a block mapping that began at `start`, to its end. -/
def readBlockMapping : (fuel : Nat) → (start : Mark) → Reader → List (Node × Node) × Reader
  | 0, _, r => ([(.cut, .cut)], r.exhausted)
  | fuel + 1, start, r =>
    match r.tokens with
    | [] => ([(.cut, .cut)], r.exhausted)
    | t :: rest =>
      match t.kind with
      | .key =>
        let r := r.skip
        match rest with
        | [] => ([(.cut, .cut)], r.exhausted)
        | u :: _ =>
          let (k, r) :=
            if u.kind = .key ∨ u.kind = .value ∨ u.kind = .blockEnd then (emptyScalar t.stop, r)
            else readNode fuel true true r
          if r.failure.isSome then ([(k, .cut)], r) else readBlockValue fuel start k r
      | .blockEnd => ([], r.skip)
      | _ => ([(.cut, .cut)], r.malformed (.within .blockMapping start .noKey t.start))

/-- Reads the value of a block mapping's key, and the entries after it. -/
def readBlockValue : (fuel : Nat) → (start : Mark) → (key : Node) → Reader →
    List (Node × Node) × Reader
  | 0, _, key, r => ([(key, .cut)], r.exhausted)
  | fuel + 1, start, key, r =>
    match r.tokens with
    | [] => ([(key, .cut)], r.exhausted)
    | t :: rest =>
      let (v, r) :=
        if t.kind = .value then
          let r := r.skip
          match rest with
          | [] => (Node.cut, r.exhausted)
          | u :: _ =>
            if u.kind = .key ∨ u.kind = .value ∨ u.kind = .blockEnd then (emptyScalar t.stop, r)
            else readNode fuel true true r
        else (emptyScalar t.start, r)
      if r.failure.isSome then ([(key, v)], r)
      else
        let (es, r) := readBlockMapping fuel start r
        ((key, v) :: es, r)

/-- Reads the entries of a flow sequence that began at `start`, to its end. -/
def readFlowSequence : (fuel : Nat) → (start : Mark) → (first : Bool) → Reader → List Node × Reader
  | 0, _, _, r => ([.cut], r.exhausted)
  | fuel + 1, start, first, r =>
    match r.tokens with
    | [] => ([.cut], r.exhausted)
    | t :: rest =>
      if t.kind = .flowSequenceEnd then ([], r.skip)
      else if first then readFlowItem fuel start r
      else if t.kind = .flowEntry then
        match rest with
        | [] => ([.cut], r.skip.exhausted)
        | u :: _ =>
          if u.kind = .flowSequenceEnd then ([], r.skip.skip) else readFlowItem fuel start r.skip
      else ([.cut], r.malformed (.within .flowSequence start .noSequenceEnd t.start))

/-- Reads an entry of a flow sequence, which may be a mapping of one pair, and those after it. -/
def readFlowItem : (fuel : Nat) → (start : Mark) → Reader → List Node × Reader
  | 0, _, r => ([.cut], r.exhausted)
  | fuel + 1, start, r =>
    match r.tokens with
    | [] => ([.cut], r.exhausted)
    | t :: _ =>
      let (n, r) :=
        if t.kind = .key then readPair fuel t.start r.skip else readNode fuel false false r
      if r.failure.isSome then ([n], r)
      else
        let (ns, r) := readFlowSequence fuel start false r
        (n :: ns, r)

/-- Reads a mapping of one pair inside a flow sequence, after its key sign. A sign that directly
follows is taken for the key. -/
def readPair : (fuel : Nat) → (mark : Mark) → Reader → Node × Reader
  | 0, mark, r => (.mapping mark none [(.cut, .cut)], r.exhausted)
  | fuel + 1, mark, r =>
    match r.tokens with
    | [] => (.mapping mark none [(.cut, .cut)], r.exhausted)
    | t :: _ =>
      let (k, r) :=
        if t.kind = .value ∨ t.kind = .flowEntry ∨ t.kind = .flowSequenceEnd then
          (emptyScalar t.stop, r.skip)
        else readNode fuel false false r
      if r.failure.isSome then (.mapping mark none [(k, .cut)], r)
      else
        match r.tokens with
        | [] => (.mapping mark none [(k, .cut)], r.exhausted)
        | u :: rest =>
          let (v, r) :=
            if u.kind = .value then
              match rest with
              | [] => (Node.cut, r.skip.exhausted)
              | w :: _ =>
                if w.kind = .flowEntry ∨ w.kind = .flowSequenceEnd then
                  (emptyScalar w.start, r.skip)
                else readNode fuel false false r.skip
            else (emptyScalar u.start, r)
          if r.failure.isSome then (.mapping mark none [(k, v)], r)
          else if r.tokens.isEmpty then
            (.mapping mark none [(k, v), (.cut, .cut)], r.exhausted)
          else (.mapping mark none [(k, v)], r)

/-- Reads the entries of a flow mapping that began at `start`, to its end. -/
def readFlowMapping : (fuel : Nat) → (start : Mark) → (first : Bool) → Reader →
    List (Node × Node) × Reader
  | 0, _, _, r => ([(.cut, .cut)], r.exhausted)
  | fuel + 1, start, first, r =>
    match r.tokens with
    | [] => ([(.cut, .cut)], r.exhausted)
    | t :: rest =>
      if t.kind = .flowMappingEnd then ([], r.skip)
      else if first then readFlowEntry fuel start r
      else if t.kind = .flowEntry then
        match rest with
        | [] => ([(.cut, .cut)], r.skip.exhausted)
        | u :: _ =>
          if u.kind = .flowMappingEnd then ([], r.skip.skip) else readFlowEntry fuel start r.skip
      else ([(.cut, .cut)], r.malformed (.within .flowMapping start .noMappingEnd t.start))

/-- Reads an entry of a flow mapping and those after it. A node without a key sign is a key with
an empty value. -/
def readFlowEntry : (fuel : Nat) → (start : Mark) → Reader → List (Node × Node) × Reader
  | 0, _, r => ([(.cut, .cut)], r.exhausted)
  | fuel + 1, start, r =>
    match r.tokens with
    | [] => ([(.cut, .cut)], r.exhausted)
    | t :: rest =>
      if t.kind = .key then
        match rest with
        | [] => ([(.cut, .cut)], r.skip.exhausted)
        | u :: _ =>
          let (k, r) :=
            if u.kind = .value ∨ u.kind = .flowEntry ∨ u.kind = .flowMappingEnd then
              (emptyScalar u.start, r.skip)
            else readNode fuel false false r.skip
          if r.failure.isSome then ([(k, .cut)], r) else readFlowValue fuel start k r
      else
        let (k, r) := readNode fuel false false r
        if r.failure.isSome then ([(k, .cut)], r)
        else
          match r.tokens with
          | [] => ([(k, .cut)], r.exhausted)
          | u :: _ =>
            let (es, r) := readFlowMapping fuel start false r
            ((k, emptyScalar u.start) :: es, r)

/-- Reads the value of a flow mapping's key, and the entries after it. -/
def readFlowValue : (fuel : Nat) → (start : Mark) → (key : Node) → Reader →
    List (Node × Node) × Reader
  | 0, _, key, r => ([(key, .cut)], r.exhausted)
  | fuel + 1, start, key, r =>
    match r.tokens with
    | [] => ([(key, .cut)], r.exhausted)
    | t :: rest =>
      let (v, r) :=
        if t.kind = .value then
          match rest with
          | [] => (Node.cut, r.skip.exhausted)
          | u :: _ =>
            if u.kind = .flowEntry ∨ u.kind = .flowMappingEnd then (emptyScalar u.start, r.skip)
            else readNode fuel false false r.skip
        else (emptyScalar t.start, r)
      if r.failure.isSome then ([(key, v)], r)
      else
        let (es, r) := readFlowMapping fuel start false r
        ((key, v) :: es, r)

end

/-! ## Documents -/

/-- The tag handles of every document. -/
def defaultHandles : List (TagText × TagText) :=
  [(tagText "!", tagText "!"), (tagText "!!", tagText "tag:yaml.org,2002:")]

/-- Reads the directives before a document. -/
def readDirectives : (versioned : Bool) → (handles : List (TagText × TagText)) → List Token →
    Except SyntaxError (List (TagText × TagText) × List Token)
  | _, handles, [] => .ok (handles, [])
  | versioned, handles, t :: rest =>
    match t.kind with
    | .versionDirective major minor =>
      if versioned then .error (.plain .duplicateVersion t.start)
      else if major ≠ 1 ∨ (minor ≠ 1 ∧ minor ≠ 2) then
        .error (.plain .incompatibleVersion t.start)
      else readDirectives true handles rest
    | .tagDirective handle expansion =>
      if handles.any fun h => h.1 == handle then .error (.plain .duplicateHandle t.start)
      else readDirectives versioned (handles ++ [(handle, expansion)]) rest
    | _ => .ok (handles, t :: rest)

/-- The first document of a text. -/
structure Document where
  root : Node
  /-- The nodes of the anchor numbers. -/
  anchored : List Anchored
  /-- Why reading stopped before the end of the document. -/
  failure : Option Failure
  /-- Whether another document follows. -/
  more : Bool

/-- Whether a token ends the content of a document. -/
def TokenKind.endsContent : TokenKind → Bool
  | .versionDirective .. | .tagDirective .. | .documentStart | .documentEnd | .streamEnd => true
  | _ => false

/-- Ends a document after its root. -/
def Document.finish (root : Node) (r : Reader) : Document :=
  if r.failure.isSome then ⟨root, r.anchored, r.failure, false⟩
  else
    match r.tokens with
    | [] => ⟨root, r.anchored, r.exhausted.failure, false⟩
    | _ =>
      let rest := r.tokens.dropWhile fun t => t.kind = .documentEnd
      ⟨root, r.anchored, none, !(rest.head?.any fun t => t.kind = .streamEnd)⟩

/-- The document of the tokens after the start of the text. -/
def Document.ofTokens (tokens : List Token) (ending : Option SyntaxError) : Document :=
  let r : Reader := ⟨tokens, ending, defaultHandles, [], 0, [], none⟩
  let fuel := 4 * tokens.length + 8
  let cut (r : Reader) : Document := ⟨.cut, [], r.failure, false⟩
  match tokens with
  | [] => cut r.exhausted
  | t :: _ =>
    if t.kind = .streamEnd then ⟨.void, [], none, false⟩
    else if !t.kind.endsContent || t.kind = .documentEnd then
      let (root, r) := readNode fuel true false r
      Document.finish root r
    else
      match readDirectives false [] tokens with
      | .error e => cut (r.malformed e)
      | .ok (handles, rest) =>
        let r := { r with tokens := rest, handles := handles ++ defaultHandles }
        match rest with
        | [] => cut r.exhausted
        | u :: rest' =>
          if u.kind ≠ .documentStart then cut (r.malformed (.plain .noDocumentStart u.start))
          else
            let r := { r with tokens := rest' }
            match rest' with
            | [] => cut r.exhausted
            | w :: _ =>
              if w.kind.endsContent then Document.finish (emptyScalar w.start) r
              else
                let (root, r) := readNode fuel true false r
                Document.finish root r

/-- The first document of a text. -/
def Document.ofText (text : List Char) : Document :=
  let (tokens, ending) := tokenize text
  match tokens with
  | [] => ⟨.cut, [], (ending.map Failure.malformed), false⟩
  | _ :: rest => Document.ofTokens rest ending

end DesignTokens.Yaml
