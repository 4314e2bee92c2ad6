import DesignTokens.Editor.Completion
import DesignTokens.Editor.Diagnostic
import DesignTokens.Editor.Document
import DesignTokens.Editor.SemanticToken

/-!
# The language server

The server holds the open documents and the workspace. An event of the editor changes them and may
have the server send something: a line for the log, or the diagnostics of a document. The text of an
open token file goes into the workspace at once, and then the diagnostics of all open documents are
sent again.
-/

namespace DesignTokens.Editor

/-- How grave a line of the log is. -/
inductive LogLevel where
  | warning
  | info
deriving DecidableEq, Repr

/-- The number of a log level. -/
def LogLevel.number : LogLevel → Nat
  | .warning => 2
  | .info => 3

/-- What the server sends on its own. -/
inductive Outgoing where
  | log (level : LogLevel) (message : String)
  /-- The diagnostics of a document, in place of those sent before. -/
  | publish (uri : Uri) (diagnostics : List Diagnostic) (version : Option Int)

/-- The method of a message. -/
def Outgoing.method : Outgoing → String
  | .log _ _ => "window/logMessage"
  | .publish _ _ _ => "textDocument/publishDiagnostics"

/-- The parameters of a message. -/
def Outgoing.params : Outgoing → Json.Value
  | .log level message =>
    .ofFields [("type", .ofNat level.number), ("message", .string message)]
  | .publish uri diagnostics version =>
    .ofFields <|
      [("uri", .string uri.text), ("diagnostics", .array (diagnostics.map Diagnostic.toJson))]
      ++ (version.map fun v => ("version", Json.Value.number (.int v))).toList

/-- The state of the server. -/
structure Server where
  documents : Documents := {}
  workspace : Workspace := {}

namespace Server

/-- The path of an address, if it is that of a token file. -/
def tokenFilePath? (s : Server) (uri : Uri) : Option String :=
  match uri.filePath? with
  | some path => if s.workspace.isTokenFile path then some path else none
  | none => none

/-- The issues that concern a file: its own and those of no file. -/
def issuesFor (issues : List Issue) (path : String) : List Issue :=
  issues.filter fun i => i.filePath.all (· = path)

/-- The issues that concern a document. -/
def documentIssues (s : Server) (uri : Uri) : List Issue :=
  match s.tokenFilePath? uri with
  | some path => issuesFor s.workspace.issues path
  | none => []

/-- The diagnostics of a document. -/
def documentDiagnostics (s : Server) (uri : Uri) (d : Document) : List Diagnostic :=
  diagnostics s.workspace.registry d.text (s.documentIssues uri)

/-- Sends the diagnostics of a document, if it is open. -/
def publish (s : Server) (uri : Uri) : List Outgoing :=
  match s.documents.get? uri with
  | some d => [.publish uri (s.documentDiagnostics uri d) (some d.version)]
  | none => []

/-- Sends the diagnostics of all open documents. -/
def publishAll (s : Server) : List Outgoing :=
  s.documents.uris.flatMap s.publish

/-! ## Events -/

/-- The settings of the editor, filled up from the package description of the workspace. Faulty
settings count as none. -/
def settingsFrom (fs : FileSystem) (root : Option String) (given : Json.Value) : Settings :=
  let own := (Settings.ofJson given).toOption.getD {}
  match root.map (Settings.ofPackage fs) with
  | some (.ok (some package)) => own.fillFrom package
  | _ => own

/-- Takes new settings. -/
def configure (s : Server) (fs : FileSystem) (given : Json.Value) : Server :=
  { s with workspace := { s.workspace with
      settings := settingsFrom fs s.workspace.root given } }

/-- Starts with a root and settings. -/
def start (s : Server) (fs : FileSystem) (root : Option String) (given : Json.Value) : Server :=
  configure { s with workspace := { s.workspace with root := root } } fs given

/-- The line of the log about a reload. -/
def reloadMessage : Except Error Nat → Outgoing
  | .ok count => .log .info ("Loaded " ++ Nat.repr count ++ " design tokens")
  | .error e => .log .warning ("Token resolution failed: " ++ e.message)

/-- Loads all token files anew. -/
def reload (s : Server) (fs : FileSystem) : Server × List Outgoing :=
  let (workspace, result) := s.workspace.reload fs
  let s := { s with workspace := workspace }
  (s, reloadMessage result :: s.publishAll)

/-- Takes the text of a document in. -/
def takeText (s : Server) (fs : FileSystem) (uri : Uri) (text : String) :
    Server × List Outgoing :=
  match s.tokenFilePath? uri with
  | some path =>
    let s := { s with workspace := (s.workspace.loadText fs path text).1 }
    (s, s.publishAll)
  | none => (s, s.publish uri)

/-- A document was opened. -/
def openDocument (s : Server) (fs : FileSystem) (uri : Uri) (d : Document) :
    Server × List Outgoing :=
  takeText { s with documents := s.documents.openAs uri d } fs uri d.text

/-- The text of a document was changed. -/
def changeDocument (s : Server) (fs : FileSystem) (uri : Uri) (text : String) (version : Int) :
    Server × List Outgoing :=
  takeText { s with documents := s.documents.update uri text version } fs uri text

/-- A document was closed. -/
def closeDocument (s : Server) (uri : Uri) : Server × List Outgoing :=
  ({ s with documents := s.documents.close uri }, [.publish uri [] none])

/-! ## Questions -/

/-- Answers a question about an open document. -/
def ask (s : Server) (uri : Uri) (question : Registry → String → Option Json.Value) : Json.Value :=
  ((s.documents.get? uri).bind fun d => question s.workspace.registry d.text).getD .null

/-- The description at a position. -/
def hoverAt (s : Server) (uri : Uri) (p : Position) : Json.Value :=
  s.ask uri fun r text => (hover r text p).map Hover.toJson

/-- The definition at a position. -/
def definitionAt (s : Server) (uri : Uri) (p : Position) : Json.Value :=
  s.ask uri fun r text => (definition r text p).map Location.toJson

/-- The offers at a position. -/
def completionsAt (s : Server) (uri : Uri) (p : Position) : Json.Value :=
  s.ask uri fun r text => some (.array ((completions r text p).map Offer.toJson))

/-- The semantic tokens of a document. -/
def semanticTokensOf (s : Server) (uri : Uri) : Json.Value :=
  s.ask uri fun r text =>
    some (.ofFields
      [("data", .array (((semanticTokens r text).flatMap SemanticToken.numbers).map .ofNat))])

end Server

end DesignTokens.Editor
