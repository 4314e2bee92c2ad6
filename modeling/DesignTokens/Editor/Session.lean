import DesignTokens.Editor.Params
import DesignTokens.Editor.Server
import DesignTokens.Editor.Unsupported

/-!
# Sessions

A session is the exchange of messages between an editor and the server: it starts with a request to
initialize, ends with a request to shut down, and is over after a notification to exit. A message
with an identifier is a request and gets a response; any other is a notification and gets none.
-/

namespace DesignTokens.Editor

/-- A message from the editor. -/
structure Message where
  id : Option Json.Value
  method : String
  params : Option Json.Value

/-- Why a request is refused. -/
inductive Refusal where
  | notInitialized
  | invalidRequest
  /-- A method that the server does not have. -/
  | unknownMethod (method : String)
  /-- A method of the protocol that the server does not support. -/
  | unsupported
  | invalidParams (reason : String)
deriving DecidableEq, Repr

namespace Refusal

/-- The number of a refusal. -/
def code : Refusal → Int
  | .notInitialized => -32002
  | .invalidRequest => -32600
  | .unknownMethod _ => -32601
  | .unsupported => -32601
  | .invalidParams _ => -32602

/-- The wording of a refusal. -/
def message : Refusal → String
  | .notInitialized => "Server not initialized"
  | .invalidRequest => "Invalid request"
  | .unknownMethod _ => "Method not found"
  | .unsupported => "Method not found"
  | .invalidParams reason => reason

/-- The JSON form of a refusal. -/
def toJson (r : Refusal) : Json.Value :=
  .ofFields <|
    [("code", .number (.int r.code)), ("message", .string r.message)] ++
    match r with
    | .unknownMethod method => [("data", .string method)]
    | _ => []

end Refusal

/-- What is answered to a request. -/
abbrev Answer := Except Refusal Json.Value

/-- The response to a request. -/
def response (id : Json.Value) (a : Answer) : Json.Value :=
  .ofFields <|
    [("jsonrpc", .string "2.0"), ("id", id)] ++
    match a with
    | .ok result => [("result", result)]
    | .error refusal => [("error", refusal.toJson)]

/-- Where a session stands. -/
inductive Phase where
  | uninitialized
  | initialized
  | shutDown
  | exited
deriving DecidableEq, Repr

/-- The state of a session. -/
structure Session where
  phase : Phase := .uninitialized
  server : Server := {}

/-- What follows a message. -/
structure Reply where
  response : Option Json.Value := none
  outgoing : List Outgoing := []

namespace Session

/-- What the server can do. -/
def capabilities : Json.Value :=
  .ofFields
    [("textDocumentSync", .ofNat 1),
     ("completionProvider", .ofFields [("triggerCharacters", .ofStrings ["-", "\x7b", "."])]),
     ("hoverProvider", .bool true),
     ("definitionProvider", .bool true),
     ("semanticTokensProvider", .ofFields
       [("legend", .ofFields
          [("tokenTypes", .ofStrings ["variable", "property"]),
           ("tokenModifiers", .ofStrings ["deprecated"])]),
        ("range", .bool false),
        ("full", .bool true)]),
     ("workspace", .ofFields [("workspaceFolders", .ofFields [("supported", .bool true)])])]

/-- The version of the server. -/
def serverVersion : String := "0.1.0"

/-- The answer to the request to initialize. -/
def greeting : Json.Value :=
  .ofFields
    [("capabilities", capabilities),
     ("serverInfo", .ofFields
       [("name", .string "Design Tokens Language Server"), ("version", .string serverVersion)])]

/-- Reads the parameters of a message. -/
def withParams {α : Type} (m : Message) (shape : Json.Shape α) : Except Refusal α :=
  match m.params with
  | none => .error (.invalidParams "Missing params field")
  | some v => (shape v).mapError fun e => .invalidParams e.message

/-- The response to a message, if it is a request. -/
def respond (m : Message) (a : Answer) : Option Json.Value :=
  m.id.map fun id => response id a

/-- The refusal of a request that does not fit the phase. -/
def refusalIn (phase : Phase) : Refusal :=
  if phase = .uninitialized then .notInitialized else .invalidRequest

/-- The notifications of the protocol that the server passes over. -/
def unsupportedNotifications : List String :=
  ["textDocument/willSave", "textDocument/didSave", "notebookDocument/didOpen",
   "notebookDocument/didChange", "notebookDocument/didSave", "notebookDocument/didClose",
   "workspace/didChangeWorkspaceFolders", "workspace/didCreateFiles", "workspace/didRenameFiles",
   "workspace/didDeleteFiles", "workspace/didChangeWatchedFiles", "$/cancelRequest"]

/-- A request that the server answers once it is initialized. -/
def question? (method : String) : Option (Server → Message → Answer) :=
  match method with
  | "textDocument/hover" => some fun s m =>
    (withParams m Params.hover).map fun place => s.hoverAt place.uri place.position
  | "textDocument/definition" => some fun s m =>
    (withParams m Params.definition).map fun place => s.definitionAt place.uri place.position
  | "textDocument/completion" => some fun s m =>
    (withParams m Params.completion).map fun place => s.completionsAt place.uri place.position
  | "textDocument/semanticTokens/full" => some fun s m =>
    (withParams m Params.semanticTokens).map fun uri => s.semanticTokensOf uri
  | _ => (Params.unsupported? method).map fun rule =>
    fun _ m => (withParams m rule.check).bind fun _ => .error .unsupported

/-- A notification that the server takes once it is initialized. One with faulty parameters is
passed over. -/
def event? (method : String) :
    Option (FileSystem → Server → Message → Except Refusal (Server × List Outgoing)) :=
  match method with
  | "initialized" => some fun fs s m => (withParams m Params.ready).map fun _ => s.reload fs
  | "workspace/didChangeConfiguration" => some fun fs s m =>
    (withParams m Params.configuration).map fun given => (s.configure fs given).reload fs
  | "textDocument/didOpen" => some fun fs s m =>
    (withParams m Params.opened).map fun (uri, d) => s.openDocument fs uri d
  | "textDocument/didChange" => some fun fs s m =>
    (withParams m Params.changed).map fun c =>
      match c.texts.getLast? with
      | some text => s.changeDocument fs c.uri text c.version
      | none => (s, [])
  | "textDocument/didClose" => some fun _ s m =>
    (withParams m Params.closed).map fun uri => s.closeDocument uri
  | _ => if method ∈ unsupportedNotifications then some fun _ s _ => .ok (s, []) else none

/-- The request to initialize. -/
def beginSession (s : Session) (fs : FileSystem) (m : Message) : Session × Reply :=
  if s.phase ≠ .uninitialized then (s, ⟨respond m (.error .invalidRequest), []⟩)
  else if m.id.isNone then (s, {})
  else
    match withParams m Params.start with
    | .error refusal => (s, ⟨respond m (.error refusal), []⟩)
    | .ok p =>
      let server := s.server.start fs (p.root?.bind Uri.filePath?) (p.settings.getD .null)
      (⟨.initialized, server⟩, ⟨respond m (.ok greeting), []⟩)

/-- The request to shut down. -/
def shutdown (s : Session) (m : Message) : Session × Reply :=
  if s.phase ≠ .initialized then (s, ⟨respond m (.error (refusalIn s.phase)), []⟩)
  else
    let a : Answer := match m.params with
      | none => .ok .null
      | some v => .error (.invalidParams ("Unexpected params: " ++ v.compact))
    ({ s with phase := .shutDown }, ⟨respond m a, []⟩)

/-- Any other message. A request needs an identifier and a notification must have none. -/
def dispatch (s : Session) (fs : FileSystem) (m : Message) : Session × Reply :=
  match question? m.method, event? m.method with
  | none, none => (s, ⟨respond m (.error (.unknownMethod m.method)), []⟩)
  | some question, _ =>
    if s.phase ≠ .initialized then (s, ⟨respond m (.error (refusalIn s.phase)), []⟩)
    else (s, ⟨respond m (question s.server m), []⟩)
  | none, some event =>
    if s.phase ≠ .initialized then (s, ⟨respond m (.error (refusalIn s.phase)), []⟩)
    else if m.id.isSome then (s, {})
    else
      match event fs s.server m with
      | .ok (server, outgoing) => ({ s with server := server }, ⟨none, outgoing⟩)
      | .error _ => (s, {})

/-- Handles a message. After the exit there is no reply any more. -/
def handle (s : Session) (fs : FileSystem) (m : Message) : Option (Session × Reply) :=
  if s.phase = .exited then none
  else
    match m.method with
    | "initialize" => some (s.beginSession fs m)
    | "shutdown" => some (s.shutdown m)
    | "exit" => some ({ s with phase := .exited }, {})
    | _ => some (s.dispatch fs m)

end Session

end DesignTokens.Editor
