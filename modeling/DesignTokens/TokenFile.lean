import DesignTokens.Error
import DesignTokens.Json.Reader
import DesignTokens.Path
import DesignTokens.Token
import DesignTokens.TokenFile.Spot

/-!
# Token files

A token file is a tree of groups in JSON or YAML. A node with a value is a token; a node without
one is a group, and so is a token under a key that marks groups. Types pass from a group to what is
in it. `TokenFile.parse` gives the tokens of a file in the order of the tree, keys sorted.
-/

namespace DesignTokens

/-- What a token file holds. -/
structure TokenFile where
  version : Version
  tokens : List Token
deriving Repr

namespace TokenFile

/-- The format of a token file. -/
inductive Format where
  | json
  | yaml
deriving DecidableEq, Repr

/-- The format that the ending of a path tells; JSON if it tells none. -/
def Format.ofPath (path : String) : Format :=
  match Path.extension? path with
  | some "yaml" => .yaml
  | some "yml" => .yaml
  | _ => .json

/-- The name of a format. -/
def Format.name : Format → String
  | .json => "json"
  | .yaml => "yaml"

/-- The keys that mark a group unless settings say otherwise. -/
def defaultGroupMarkers : List String := ["_", "@", "DEFAULT"]

/-- What is said about a file from outside. -/
structure Options where
  /-- What stands before the names of the file's tokens in CSS variables. -/
  cssPrefix : String := ""
  /-- The keys under which a token is a group too. -/
  groupMarkers : List String := defaultGroupMarkers
  /-- The version to assume for a file that names none. -/
  version : Option Version := none
  filePath : String := ""
  definitionUri : String := ""
deriving DecidableEq, Repr

/-- What all tokens of a file share. -/
structure Context where
  options : Options
  version : Version
  format : Format

/-- The ways to spell a key in a format. -/
def spellings (format : Format) (key : String) : List (List Char) :=
  let k := key.toList
  match format with
  | .json => [['"'] ++ k ++ ['"']]
  | .yaml => [k ++ [':'], ['"'] ++ k ++ ['"', ':'], ['\''] ++ k ++ ['\'', ':']]

/-- The spot of a key, sought from the spot of its group; the group's own if there is none. -/
def keySpot (format : Format) (key : String) (group : Spot) : Spot :=
  (group.seek? (spellings format key)).getD group

/-- A token at a path and a spot, without a value. -/
def bareToken (c : Context) (path : List String) (spot : Spot) : Token :=
  { name := Text.join "-" path
    path := path
    filePath := c.options.filePath
    definitionUri := c.options.definitionUri
    cssPrefix := c.options.cssPrefix
    version := c.version
    line := spot.position.line
    character := spot.position.character }

/-- The text of a value, and the value itself unless the text says it all: a string is its text,
and outside of the draft version an object with a pointer under `$ref` is that pointer. -/
def valueText (version : Version) (v : Json.Value) : String × Option Json.Value :=
  match v with
  | .string s => (s, none)
  | .object fields =>
    match (if version = .draft then none else (Json.Value.object fields).stringAt? "$ref") with
    | some pointer => (pointer, none)
    | none => (v.compact, some v)
  | _ => (v.compact, some v)

/-- Whether a node is deprecated, and the message it gives. -/
def deprecation (node : Json.Value) : Bool × Option String :=
  match node.get? "$deprecated" with
  | some (.bool flag) => (flag, none)
  | some (.string message) => (true, some message)
  | _ => (false, none)

/-- The extensions of a node. -/
def nodeExtensions (node : Json.Value) : Option Json.Fields :=
  match node.get? "$extensions" with
  | some (.object fields) => some fields
  | _ => none

/-- The token that a node with a value defines. -/
def nodeToken (c : Context) (path : List String) (type : Option String) (spot : Spot)
    (node : Json.Value) : Token :=
  let (text, raw) := valueText c.version ((node.get? "$value").getD .null)
  let (deprecated, message) := deprecation node
  { bareToken c path spot with
    value := text
    rawValue := raw
    tokenType := type
    description := node.stringAt? "$description"
    deprecated := deprecated
    deprecationMessage := message
    extensions := nodeExtensions node }

/-- Whether a node has a value. -/
def hasValue (node : Json.Value) : Bool :=
  (node.get? "$value").isSome

/-- The marker that a group extends another. -/
def extendsMarker (c : Context) (path : List String) (spot : Spot) (group : Json.Value) :
    List Token :=
  match group.stringAt? extendsKey with
  | some target => [{ bareToken c (path ++ [extendsKey]) spot with value := target }]
  | none => []

/-- The key of a group's own token. -/
def rootKey : String := "$root"

/-- The token of a group itself. -/
def rootToken (c : Context) (path : List String) (type : Option String) (spot : Spot)
    (group : Json.Value) : List Token :=
  match group.get? rootKey with
  | some (.object fields) =>
    if hasValue (.object fields) then
      [nodeToken c path type (keySpot c.format rootKey spot) (.object fields)]
    else []
  | _ => []

/-- What a group says about itself: in the release of October 2025, and below the root of the file,
the group that it extends and its own token. -/
def groupHead (c : Context) (path : List String) (type : Option String) (spot : Spot)
    (group : Json.Value) : List Token :=
  if c.version = .v2025_10 ∧ path ≠ [] then
    extendsMarker c path spot group ++ rootToken c path type spot group
  else []

mutual

/-- The tokens of a group: those about itself and then those of its children. -/
def groupTokens (c : Context) (path : List String) (type : Option String) (spot : Spot) :
    Json.Value → List Token
  | .object fields =>
    groupHead c path type spot (.object fields) ++ childTokens c path type spot fields
  | _ => []

/-- The tokens of the children of a group. Keys with a dollar sign and values that are no objects
are none. -/
def childTokens (c : Context) (path : List String) (type : Option String) (spot : Spot) :
    List (String × Json.Value) → List Token
  | [] => []
  | (key, .object fields) :: rest =>
    (if Text.startsWith "$" key then []
     else
      let node := Json.Value.object fields
      let inner := path ++ [key]
      let place := keySpot c.format key spot
      let type' := (node.stringAt? "$type").or type
      let own := if hasValue node then [nodeToken c inner type' place node] else []
      if !hasValue node || c.options.groupMarkers.contains key then
        own ++ groupTokens c inner type' place (.object fields)
      else own) ++ childTokens c path type spot rest
  | (_, _) :: rest => childTokens c path type spot rest

end

/-- The document of a text. -/
def readDocument (format : Format) (content : String) : Except DocumentError Json.Value :=
  match format with
  | .json => (Json.Value.parse content).mapError .json
  | .yaml =>
    match Yaml.Value.parse content with
    | .error e => .error (.yaml e)
    | .ok v => v.toJson.mapError fun cause => .json (.unplaced cause)

/-- The tokens of a document. -/
def ofDocument (doc : Json.Value) (content : String) (format : Format) (options : Options) :
    TokenFile :=
  let version := Version.detect doc options.version
  let c : Context := ⟨options, version, format⟩
  ⟨version, groupTokens c [] none (.start content.toList) doc⟩

/-- The tokens of a file's content. -/
def parse (content : String) (format : Format) (options : Options) : Except Error TokenFile :=
  match readDocument format content with
  | .error e => .error (.document e)
  | .ok (.object fields) => .ok (ofDocument (.object fields) content format options)
  | .ok _ => .error (.rootNotObject options.filePath)

end TokenFile

end DesignTokens
