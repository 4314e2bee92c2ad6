import DesignTokens.Discovery
import DesignTokens.Json.Shape
import DesignTokens.TokenFile

/-!
# Settings

Settings say which token files to load and how their tokens are named. They come from the client or
from the package description of the workspace, flat or under the name of the server. Without a list
of files, the token files below the root of the workspace are found by their names.
-/

namespace DesignTokens

/-- A token file in the settings. -/
inductive FileEntry where
  | bare (path : String)
  /-- A path with settings of its own. -/
  | detailed (path : String) (cssPrefix : Option String) (groupMarkers : Option (List String))
deriving DecidableEq, Repr

namespace FileEntry

/-- The path of an entry. -/
def path : FileEntry → String
  | .bare path => path
  | .detailed path _ _ => path

/-- The CSS prefix that an entry sets. -/
def cssPrefix? : FileEntry → Option String
  | .bare _ => none
  | .detailed _ cssPrefix _ => cssPrefix

/-- The group markers that an entry sets. -/
def groupMarkers? : FileEntry → Option (List String)
  | .bare _ => none
  | .detailed _ _ groupMarkers => groupMarkers

/-- A text that may be missing, in a report. -/
def optionText : Option String → String
  | none => "None"
  | some s => "Some(" ++ s ++ ")"

/-- A list of texts in a report. -/
def listText (texts : List String) : String :=
  "[" ++ Text.join ", " (texts.map Text.quoted) ++ "]"

/-- An entry in a report. -/
def report : FileEntry → String
  | .bare path => "Path(" ++ Text.quoted path ++ ")"
  | .detailed path cssPrefix groupMarkers =>
    "Detailed \x7b path: " ++ Text.quoted path
      ++ ", prefix: " ++ optionText (cssPrefix.map Text.quoted)
      ++ ", group_markers: " ++ optionText (groupMarkers.map listText) ++ " \x7d"

/-- A field with a value, if there is one. -/
def presentField (name : String) : Option Json.Value → List (String × Json.Value)
  | some v => [(name, v)]
  | none => []

/-- The JSON form of an entry. -/
def toJson : FileEntry → Json.Value
  | .bare path => .string path
  | .detailed path cssPrefix groupMarkers =>
    .ofFields <|
      [("path", .string path)]
      ++ presentField "prefix" (cssPrefix.map .string)
      ++ presentField "groupMarkers" (groupMarkers.map .ofStrings)

/-- Reads an entry with settings of its own. -/
def readDetailed (fields : Json.Fields) : Except Json.ShapeError FileEntry := do
  let markers ← Json.Shape.field? fields "groupMarkers" (.optional (.list .text))
  let path ← Json.Shape.field? fields "path" .text
  let cssPrefix ← Json.Shape.field? fields "prefix" (.optional .text)
  let path ← Json.Shape.required "path" path
  return .detailed path cssPrefix.join markers.join

/-- Reads an entry; whatever is wrong with it, it is no entry. -/
def shape : Json.Shape FileEntry
  | .string path => .ok (.bare path)
  | .object fields => (readDetailed fields).mapError fun _ => .noAlternative "TokenFileSpec"
  | _ => .error (.noAlternative "TokenFileSpec")

end FileEntry

/-- Which token files to load and how. -/
structure Settings where
  /-- The files to load; with none, files are found by their names. -/
  tokenFiles : List FileEntry := []
  /-- What stands before token names in CSS variables. -/
  cssPrefix : String := ""
  groupMarkers : List String := TokenFile.defaultGroupMarkers
  /-- The version of files that name none. -/
  version : Option Version := none
deriving DecidableEq, Repr, Inhabited

/-- A file to load, with its options. -/
structure Target where
  path : String
  options : TokenFile.Options
deriving DecidableEq, Repr

namespace Settings

/-- The name of the server in settings. -/
def sectionName : String := "designTokensLanguageServer"

/-- The other name of the server in settings. -/
def hyphenatedName : String := "design-tokens-language-server"

/-- The JSON form of settings. -/
def toJson (s : Settings) : Json.Value :=
  .ofFields <|
    [("tokensFiles", .array (s.tokenFiles.map FileEntry.toJson)),
     ("prefix", .string s.cssPrefix),
     ("groupMarkers", .ofStrings s.groupMarkers)]
    ++ FileEntry.presentField "schemaVersion" (s.version.map fun v => .string v.name)

/-! ## Reading -/

/-- A version by its name. -/
def versionShape : Json.Shape Version := fun v =>
  match Json.Shape.text v with
  | .error e => .error e
  | .ok name => (Version.ofName name).mapError fun e => .refused e.message

/-- The default for each part that is missing. -/
def ofParts (tokenFiles : Option (List FileEntry)) (cssPrefix : Option String)
    (groupMarkers : Option (List String)) (version : Option (Option Version)) : Settings :=
  { tokenFiles := tokenFiles.getD []
    cssPrefix := cssPrefix.getD ""
    groupMarkers := groupMarkers.getD TokenFile.defaultGroupMarkers
    version := version.join }

/-- Reads the item of a list, if it is there. -/
def item? {α : Type} (items : List Json.Value) (index : Nat) (shape : Json.Shape α) :
    Except Json.ShapeError (Option α) :=
  match items[index]? with
  | none => .ok none
  | some v => (shape v).map some

/-- Reads settings, as an object or as the list of its fields. -/
def shape : Json.Shape Settings
  | .object fields => do
    let markers ← Json.Shape.field? fields "groupMarkers" (.list .text)
    let cssPrefix ← Json.Shape.field? fields "prefix" .text
    let version ← Json.Shape.field? fields "schemaVersion" (.optional versionShape)
    let files ← Json.Shape.field? fields "tokensFiles" (.list FileEntry.shape)
    return ofParts files cssPrefix markers version
  | .array items => do
    let files ← item? items 0 (.list FileEntry.shape)
    let cssPrefix ← item? items 1 .text
    let markers ← item? items 2 (.list .text)
    let version ← item? items 3 (.optional versionShape)
    if 4 < items.length then throw (.wrongLength items.length "fewer elements in array")
    return ofParts files cssPrefix markers version
  | v => Json.Shape.mismatch "struct ServerConfig" v

/-- The first entry without a path is an error. -/
def validate (s : Settings) : Except Error Unit :=
  match s.tokenFiles.find? fun e => Text.allBlank e.path with
  | some e => .error (.settings (.blankPath e.report))
  | none => .ok ()

/-- The part of an object that holds the settings: the one under the name of the server, or else
all of it. -/
def ownPart (fields : Json.Fields) : Json.Value :=
  ((fields.get? sectionName).or (fields.get? hyphenatedName)).getD (.object fields)

/-- Reads settings, flat or under the name of the server. Null stands for the defaults. -/
def ofJson : Json.Value → Except Error Settings
  | .null => .ok {}
  | .object fields =>
    match ownPart fields with
    | .null => .ok {}
    | part =>
      match shape part with
      | .error e => .error (.settings (.invalid e.message))
      | .ok s => s.validate.map fun _ => s
  | _ => .error (.settings .notObject)

/-- The settings in the package description of a directory, if there are some. -/
def ofPackage (fs : FileSystem) (root : String) : Except Error (Option Settings) :=
  let path := Path.join root "package.json"
  if !fs.isFile path then .ok none
  else
    match fs.readText path with
    | .error fault => .error (.unreadable fault)
    | .ok text =>
      match Json.Value.parse text with
      | .error e => .error (.document (.json e))
      | .ok package =>
        match package.get? sectionName with
        | none => .ok none
        | some part => (ofJson part).map some

/-- Settings with what they leave at its default taken from others. -/
def fillFrom (s other : Settings) : Settings :=
  { tokenFiles := if s.tokenFiles.isEmpty then other.tokenFiles else s.tokenFiles
    cssPrefix := if s.cssPrefix.isEmpty then other.cssPrefix else s.cssPrefix
    groupMarkers :=
      if s.groupMarkers = TokenFile.defaultGroupMarkers then other.groupMarkers
      else s.groupMarkers
    version := s.version.or other.version }

/-! ## Files -/

/-- The path of an entry: absolute as it is, in an installed package after `npm:`, or else in the
root of the workspace. -/
def filePath (root : Option String) (path : String) : String :=
  let base := root.getD ""
  match Text.afterStart? "npm:" path with
  | some inner =>
    if Path.isAbsolute inner then inner else Path.join (Path.join base "node_modules") inner
  | none => Path.join base path

/-- The options of a file without settings of its own. -/
def optionsFor (s : Settings) (path : String) : TokenFile.Options :=
  { cssPrefix := s.cssPrefix
    groupMarkers := s.groupMarkers
    version := s.version
    filePath := path }

/-- The file of an entry. An entry's list of group markers counts if it has some. -/
def target (s : Settings) (root : Option String) (e : FileEntry) : Target :=
  let path := filePath root e.path
  let options := s.optionsFor path
  { path := path
    options := { options with
      cssPrefix := e.cssPrefix?.getD options.cssPrefix
      groupMarkers := match e.groupMarkers? with
        | some (m :: ms) => m :: ms
        | _ => options.groupMarkers } }

/-- The files to load. -/
def targets (s : Settings) (fs : FileSystem) (root : Option String) :
    Except Error (List Target) :=
  match s.validate with
  | .error e => .error e
  | .ok () =>
    if s.tokenFiles.isEmpty then
      match root with
      | none => .ok []
      | some root =>
        .ok ((Discovery.tokenFiles fs root).map fun path => ⟨path, s.optionsFor path⟩)
    else .ok (s.tokenFiles.map (s.target root))

end Settings

end DesignTokens
