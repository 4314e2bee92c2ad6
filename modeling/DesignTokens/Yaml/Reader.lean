import DesignTokens.Text.Quoted
import DesignTokens.Yaml.Node
import DesignTokens.Yaml.Value

/-!
# Reading YAML text

`Value.parse` reads the one document of a text. Aliases are replaced by the nodes they stand for;
collections may be nested `depthLimit` deep, aliases counted, and aliases may be followed a hundred
times for each part of the document. Two equal keys in one mapping are an error.
-/

namespace DesignTokens.Yaml

/-- The way from the root of a document to a node. -/
inductive Path where
  | root
  | item (parent : Path) (index : Nat)
  | entry (parent : Path) (key : String)
  /-- An entry whose key is no scalar. -/
  | unnamed (parent : Path)
  /-- The target of an alias. -/
  | target (parent : Path)
deriving DecidableEq, Repr

mutual

/-- The text of a path; the root is a point. -/
def Path.text : Path → String
  | .root => "."
  | .item parent index => parent.text ++ "[" ++ Nat.repr index ++ "]"
  | .entry parent key => parent.lead ++ key
  | .unnamed parent => parent.lead ++ "?"
  | .target parent => parent.text

/-- The text of a path before the name of an entry. -/
def Path.lead : Path → String
  | .root => ""
  | .item parent index => parent.text ++ "[" ++ Nat.repr index ++ "]" ++ "."
  | .entry parent key => parent.lead ++ key ++ "."
  | .unnamed parent => parent.lead ++ "?" ++ "."
  | .target parent => parent.text ++ "."

end

/-- What is wrong with a node. -/
inductive NodeFault where
  /-- An integer of more than 64 bits; the text names it and its width. -/
  | wideInteger (text : String)
  /-- A scalar that its tag does not fit. -/
  | unfit (text expected : String)
  /-- A key that is there already. -/
  | duplicateKey (key : Value)
deriving Repr

/-- Numbers in reports about keys carry no sign on positive exponents. -/
def keyLayout : Decimal.Layout :=
  { positionalFrom := -5, positionalTo := 15, plusSign := false }

/-- A key as reports name it. -/
def describeKey : Value → String
  | .null => "with null key"
  | .bool b => if b then "with key `true`" else "with key `false`"
  | .int n => "with key " ++ (Json.Number.int n).text
  | .real (.finite d) => "with key " ++ keyLayout.text d
  | .real (.infinite true) => "with key -.inf"
  | .real (.infinite false) => "with key .inf"
  | .real .nan => "with key .nan"
  | .string s => "with key " ++ Text.quoted s
  | _ => "in YAML map"

/-- The wording of a fault. -/
def NodeFault.message : NodeFault → String
  | .wideInteger text => "invalid type: integer `" ++ text ++ ", expected any YAML value"
  | .unfit text expected =>
    "invalid value: string " ++ Text.quoted text ++ ", expected " ++ expected
  | .duplicateKey key => "duplicate entry " ++ describeKey key

/-- Why a text was refused. -/
inductive Error where
  | malformed (e : SyntaxError)
  | unknownAnchor (mark : Mark)
  | tooDeep (mark : Mark)
  | tooManyAliases
  | moreDocuments
  | atNode (fault : NodeFault) (mark : Mark) (path : Path)
deriving Repr

/-- The place after a message; the start of the text is left out. -/
def placeText (mark : Mark) : String :=
  if mark.atStart then "" else " at " ++ mark.text

/-- The wording of an error. -/
def Error.message : Error → String
  | .malformed e => e.message
  | .unknownAnchor mark => "unknown anchor" ++ placeText mark
  | .tooDeep mark => "recursion limit exceeded" ++ placeText mark
  | .tooManyAliases => "repetition limit exceeded"
  | .moreDocuments =>
    "deserializing from YAML containing more than one document is not supported"
  | .atNode fault mark path =>
    let place := path.text
    (if place = "." then "" else place ++ ": ") ++ fault.message ++ placeText mark

/-- The error of a failure to read nodes. -/
def Failure.toError : Failure → Error
  | .malformed e => .malformed e
  | .unknownAnchor mark => .unknownAnchor mark

/-! ## Scalars -/

/-- The value of an integer. -/
def Integer.value : Integer → Except NodeFault Value
  | .word n => .ok (.int n)
  | .wide n => .error (.wideInteger (Nat.repr n ++ "` as u128"))
  | .wideNegative n => .error (.wideInteger ("-" ++ Nat.repr n ++ "` as i128"))

/-- The value of a plain scalar. -/
def plainValue (s : String) : Except NodeFault Value :=
  if s.isEmpty || isNull s then .ok .null
  else
    match bool? s with
    | some b => .ok (.bool b)
    | none =>
      match integer? s with
      | some n => n.value
      | none =>
        match (if isZeroPadded s.toList then none else real? s) with
        | some r => .ok (.real r)
        | none => .ok (.string s)

/-- A tag that text can show and that starts with a bang: a tag of the document's own. -/
def ownTag? (tag : TagText) : Option String :=
  match tag with
  | 33 :: rest => String.fromUTF8? (ByteArray.mk (if rest.isEmpty then tag else rest).toArray)
  | _ => none

/-- The value of a scalar by its tag; `tag` is none where the tag is dealt with already. -/
def scalarValue (tag : Option TagText) (s : String) (style : ScalarStyle) :
    Except NodeFault Value :=
  let plain := style = .plain
  match tag with
  | none => if plain then plainValue s else .ok (.string s)
  | some tag =>
    if tag == tagText "tag:yaml.org,2002:bool" then
      match bool? s with
      | some b => .ok (.bool b)
      | none => .error (.unfit s "a boolean")
    else if tag == tagText "tag:yaml.org,2002:int" then
      match integer? s with
      | some n => n.value
      | none => .error (.unfit s "an integer")
    else if tag == tagText "tag:yaml.org,2002:float" then
      match real? s with
      | some r => .ok (.real r)
      | none => .error (.unfit s "a float")
    else if tag == tagText "tag:yaml.org,2002:null" then
      if isNull s then .ok .null else .error (.unfit s "null")
    else if tag.head? == some 33 && plain then plainValue s
    else .ok (.string s)

/-! ## Trees -/

mutual

/-- How many parts a node has, and whether it is whole: a collection counts at its start and, if
it is whole, at its end. -/
def Node.parts : Node → Nat × Bool
  | .sequence _ _ items =>
    let (n, whole) := partsOfItems items
    (if whole then n + 2 else n + 1, whole)
  | .mapping _ _ entries =>
    let (n, whole) := partsOfEntries entries
    (if whole then n + 2 else n + 1, whole)
  | .cut => (0, false)
  | _ => (1, true)

/-- The parts of a list of nodes. -/
def partsOfItems : List Node → Nat × Bool
  | [] => (0, true)
  | n :: ns =>
    let (a, whole) := n.parts
    let (b, whole') := partsOfItems ns
    (a + b, whole && whole')

/-- The parts of a list of entries. -/
def partsOfEntries : List (Node × Node) → Nat × Bool
  | [] => (0, true)
  | (k, v) :: es =>
    let (a, whole) := k.parts
    let (b, whole') := v.parts
    let (c, whole'') := partsOfEntries es
    (a + b + c, whole && whole' && whole'')

end

/-- The node of an anchor number: the one that got it last. -/
def Document.node (d : Document) (number : Nat) : Node :=
  let own := d.anchored.filter fun a => a.number == number
  match own.foldl (fun best a => match best with
      | none => some a
      | some b => if b.order < a.order then some a else some b) (none : Option Anchored) with
  | some a => a.node
  | none => .cut

/-- The depth to which collections may be nested. -/
def depthLimit : Nat := 128

/-- Computations that count the aliases followed. -/
abbrev Following := StateT Nat (Except Error)

/-- The failure that cut the document. -/
def Document.cutError (d : Document) : Error :=
  match d.failure with
  | some f => f.toError
  | none => .moreDocuments

/-- The node behind an alias, and the way to it. -/
def Document.follow (d : Document) (limit : Nat) (path : Path) : Node → Following (Node × Path)
  | .aliasOf _ number => do
    let count := (← get) + 1
    set count
    if limit < count then throw .tooManyAliases
    return (d.node number, .target path)
  | n => return (n, path)

/-- The entries of a mapping, read one by one; a key that is there already is an error before its
value is read. -/
def readEntries (mark : Mark) (path : Path) (read : Path → Node → Following Value) :
    (done : List (Value × Value)) → List (Node × Node) → Following (List (Value × Value))
  | done, [] => return done
  | done, (k, v) :: es => do
    let key ← read path k
    if done.any fun e => e.1.same key then
      throw (.atNode (.duplicateKey key) mark path)
    let inner : Path := match k with
      | .scalar _ _ text _ => .entry path text
      | _ => .unnamed path
    let value ← read inner v
    readEntries mark path read (done ++ [(key, value)]) es

/-- The items of a sequence, read one by one. -/
def readItems (path : Path) (read : Path → Node → Following Value) :
    (index : Nat) → List Node → Following (List Value)
  | _, [] => return []
  | index, n :: ns => do
    let v ← read (.item path index) n
    let vs ← readItems path read (index + 1) ns
    return v :: vs

/-- A fault of a node as an error. -/
def liftFault (mark : Mark) (path : Path) : Except NodeFault Value → Following Value
  | .ok v => return v
  | .error f => throw (.atNode f mark path)

/-- The value of a node that is no alias, without its own tag; `inner` reads the nodes in it. -/
def contentValue (d : Document) (path : Path) (tagged : Bool)
    (inner : Option (Path → Node → Following Value)) : Node → Following Value
  | .scalar mark tag text style =>
    liftFault mark path (scalarValue (if tagged then none else tag) text style)
  | .sequence mark _ items =>
    match inner with
    | none => throw (.tooDeep mark)
    | some read => do
      let vs ← readItems path read 0 items
      return .sequence vs
  | .mapping mark _ entries =>
    match inner with
    | none => throw (.tooDeep mark)
    | some read => do
      let es ← readEntries mark path read [] entries
      return .mapping es
  | .void => return .null
  | .aliasOf .. => throw d.cutError
  | .cut => throw d.cutError

/-- The tag of a node. -/
def Node.tag? : Node → Option TagText
  | .scalar _ tag _ _ => tag
  | .sequence _ tag _ => tag
  | .mapping _ tag _ => tag
  | _ => none

/-- The value of a node, with `depth` levels of nesting left. -/
def Document.value (d : Document) (limit : Nat) : (depth : Nat) → Path → Node → Following Value
  | depth, path, n => do
    let (n, path) ← d.follow limit path n
    let inner : Option (Path → Node → Following Value) := match depth with
      | 0 => none
      | depth + 1 => some (d.value limit depth)
    match n.tag?.bind ownTag? with
    | none => contentValue d path false inner n
    | some tag =>
      let v ← contentValue d path true inner n
      return .tagged tag v

/-- The value of the one document of a text. -/
def Value.parse (text : String) : Except Error Value := do
  let d := Document.ofText text.toList
  let limit := 100 * d.root.parts.1
  let (v, _) ← (d.value limit depthLimit .root d.root).run 0
  match d.failure with
  | some f => throw f.toError
  | none => if d.more then throw .moreDocuments else return v

end DesignTokens.Yaml
