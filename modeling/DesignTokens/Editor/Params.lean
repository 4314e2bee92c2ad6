import DesignTokens.Editor.Document
import DesignTokens.Json.Shape
import DesignTokens.Position

/-!
# Parameters of messages

The shapes of the parameters that an editor sends.
-/

namespace DesignTokens.Editor

open Json (Shape ShapeError)

namespace Params

/-- An address. -/
def uri : Shape Uri
  | .string s =>
    match Uri.parse s with
    | .ok u => .ok u
    | .error f => .error (.wrongValue (Json.Value.string s).found f.message)
  | v => Shape.mismatch "a string representing an URL" v

/-- A position. -/
def position : Shape Position := fun v => do
  let fields ← Shape.record "Position" v
  let character ← Shape.field? fields "character" Shape.unsigned
  let line ← Shape.field? fields "line" Shape.unsigned
  let line ← Shape.required "line" line
  let character ← Shape.required "character" character
  return ⟨line, character⟩

/-- A range. -/
def range : Shape Range := fun v => do
  let fields ← Shape.record "Range" v
  let stop ← Shape.field? fields "end" position
  let start ← Shape.field? fields "start" position
  let start ← Shape.required "start" start
  let stop ← Shape.required "end" stop
  return ⟨start, stop⟩

/-- The name of a document. -/
def documentId : Shape Uri := fun v => do
  let fields ← Shape.record "TextDocumentIdentifier" v
  let address ← Shape.field? fields "uri" uri
  Shape.required "uri" address

/-- A token for reports of progress: a number or a string. -/
def progressToken : Shape Unit
  | .null => .ok ()
  | .string _ => .ok ()
  | v =>
    match Shape.signed v with
    | .ok _ => .ok ()
    | .error _ => .error (.noAlternative "NumberOrString")

/-- A document and a position in it. -/
structure At where
  uri : Uri
  position : Position

/-- A document and a position among other fields. -/
def documentPosition (fields : Json.Fields) : Except ShapeError At := do
  let place ← Shape.field? fields "position" position
  let document ← Shape.field? fields "textDocument" documentId
  let document ← Shape.required "textDocument" document
  let place ← Shape.required "position" place
  return ⟨document, place⟩

/-- Checks the token for reports of progress. -/
def checkProgress (fields : Json.Fields) (name : String) : Except ShapeError Unit := do
  let _ ← Shape.field? fields name progressToken

/-- The parameters of a request for a description. -/
def hover : Shape At := fun v => do
  let fields ← Shape.record "HoverParams" v
  let place ← documentPosition fields
  checkProgress fields "workDoneToken"
  return place

/-- The parameters of a request for a definition. -/
def definition : Shape At := fun v => do
  let fields ← Shape.record "GotoDefinitionParams" v
  let place ← documentPosition fields
  checkProgress fields "workDoneToken"
  checkProgress fields "partialResultToken"
  return place

/-- What brought a completion about. -/
def trigger : Shape Unit := fun v => do
  let fields ← Shape.record "CompletionContext" v
  let _ ← Shape.field? fields "triggerCharacter" (Shape.optional Shape.text)
  let kind ← Shape.field? fields "triggerKind" Shape.signed
  let _ ← Shape.required "triggerKind" kind

/-- The parameters of a request for completions. -/
def completion : Shape At := fun v => do
  let fields ← Shape.record "CompletionParams" v
  let _ ← Shape.field? fields "context" (Shape.optional trigger)
  let place ← documentPosition fields
  checkProgress fields "workDoneToken"
  checkProgress fields "partialResultToken"
  return place

/-- The parameters of a request for semantic tokens. -/
def semanticTokens : Shape Uri := fun v => do
  let fields ← Shape.record "SemanticTokensParams" v
  let document ← Shape.field? fields "textDocument" documentId
  checkProgress fields "workDoneToken"
  checkProgress fields "partialResultToken"
  Shape.required "textDocument" document

/-! ## Start -/

/-- Who the editor is. -/
def clientInfo : Shape Unit := fun v => do
  let fields ← Shape.record "ClientInfo" v
  let name ← Shape.field? fields "name" Shape.text
  let _ ← Shape.field? fields "version" (Shape.optional Shape.text)
  let _ ← Shape.required "name" name

/-- How much the editor wants to be told. -/
def trace : Shape Unit
  | .string s =>
    if s ∈ ["off", "messages", "verbose"] then .ok ()
    else .error (.unknownVariant s "one of `off`, `messages`, `verbose`")
  | v => Shape.mismatch "string or map" v

/-- A folder that is open in the editor. -/
def folder : Shape Uri := fun v => do
  let fields ← Shape.record "WorkspaceFolder" v
  let name ← Shape.field? fields "name" Shape.text
  let address ← Shape.field? fields "uri" uri
  let address ← Shape.required "uri" address
  let _ ← Shape.required "name" name
  return address

/-- What the editor says at the start. -/
structure Start where
  rootUri : Option Uri
  folders : Option (List Uri)
  settings : Option Json.Value

/-- The address of the root: the one that is given, or else the first folder. -/
def Start.root? (s : Start) : Option Uri :=
  s.rootUri.or (s.folders.bind List.head?)

/-- The parameters at the start. -/
def start : Shape Start := fun v => do
  let fields ← Shape.record "InitializeParams" v
  let capabilities ← Shape.field? fields "capabilities" (Shape.record "ClientCapabilities")
  let _ ← Shape.field? fields "clientInfo" (Shape.optional clientInfo)
  let settings ← Shape.field? fields "initializationOptions" (Shape.optional Shape.any)
  let _ ← Shape.field? fields "locale" (Shape.optional Shape.text)
  let _ ← Shape.field? fields "processId" (Shape.optional Shape.unsigned)
  let _ ← Shape.field? fields "rootPath" (Shape.optional Shape.text)
  let root ← Shape.field? fields "rootUri" (Shape.optional uri)
  let _ ← Shape.field? fields "trace" (Shape.optional trace)
  let folders ← Shape.field? fields "workspaceFolders" (Shape.optional (Shape.list folder))
  let _ ← Shape.required "capabilities" capabilities
  return ⟨root.join, folders.join, settings.join⟩

/-! ## Documents -/

/-- A document that was opened. -/
def opened : Shape (Uri × Document) := fun v => do
  let fields ← Shape.record "DidOpenTextDocumentParams" v
  let item ← Shape.field? fields "textDocument" (Shape.record "TextDocumentItem")
  let item ← Shape.required "textDocument" item
  let language ← Shape.field? item "languageId" Shape.text
  let text ← Shape.field? item "text" Shape.text
  let address ← Shape.field? item "uri" uri
  let version ← Shape.field? item "version" Shape.signed
  let address ← Shape.required "uri" address
  let language ← Shape.required "languageId" language
  let version ← Shape.required "version" version
  let text ← Shape.required "text" text
  return (address, ⟨text, version, language⟩)

/-- A change of a document: its new text. -/
def change : Shape String := fun v => do
  let fields ← Shape.record "TextDocumentContentChangeEvent" v
  let _ ← Shape.field? fields "range" (Shape.optional range)
  let _ ← Shape.field? fields "rangeLength" (Shape.optional Shape.unsigned)
  let text ← Shape.field? fields "text" Shape.text
  Shape.required "text" text

/-- The changes of a document. -/
structure Changes where
  uri : Uri
  version : Int
  texts : List String

/-- A document that was changed. -/
def changed : Shape Changes := fun v => do
  let fields ← Shape.record "DidChangeTextDocumentParams" v
  let texts ← Shape.field? fields "contentChanges" (Shape.list change)
  let item ← Shape.field? fields "textDocument" (Shape.record "VersionedTextDocumentIdentifier")
  let item ← Shape.required "textDocument" item
  let address ← Shape.field? item "uri" uri
  let version ← Shape.field? item "version" Shape.signed
  let address ← Shape.required "uri" address
  let version ← Shape.required "version" version
  let texts ← Shape.required "contentChanges" texts
  return ⟨address, version, texts⟩

/-- A document that was closed. -/
def closed : Shape Uri := fun v => do
  let fields ← Shape.record "DidCloseTextDocumentParams" v
  let document ← Shape.field? fields "textDocument" documentId
  Shape.required "textDocument" document

/-- New settings. -/
def configuration : Shape Json.Value := fun v => do
  let fields ← Shape.record "DidChangeConfigurationParams" v
  Shape.required "settings" (fields.get? "settings")

/-- The editor is ready. -/
def ready : Shape Unit
  | .object _ => .ok ()
  | .array [] => .ok ()
  | v => Shape.mismatch "struct InitializedParams" v

end Params

end DesignTokens.Editor
