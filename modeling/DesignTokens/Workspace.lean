import DesignTokens.Inheritance
import DesignTokens.Registry
import DesignTokens.Resolution
import DesignTokens.Settings
import DesignTokens.Uri

/-!
# Workspaces

A workspace keeps the tokens of each token file as they were parsed. After each change they are
resolved together and published in the registry in one go. A broken reference leaves single tokens
unresolved; a cycle leaves all of them as they were parsed, with the values that were resolved
before where a token's own value did not change.
-/

namespace DesignTokens

/-- A problem of the last pass. -/
structure Issue where
  /-- The file with the problem, if it is one file's. -/
  filePath : Option String
  position : Option Position
  message : String
deriving DecidableEq, Repr

/-- The tokens of a file as they were parsed. -/
structure Source where
  filePath : String
  tokens : List Token
deriving Repr

/-- The state of a workspace. -/
structure Workspace where
  registry : Registry := Registry.empty
  /-- The files in the order in which they were loaded. -/
  sources : List Source := []
  /-- The files that the last reload settled on. -/
  targets : List Target := []
  settings : Settings := {}
  root : Option String := none
  /-- The problems of files that could not be loaded. -/
  loadIssues : List Issue := []
  /-- All problems of the last pass. -/
  issues : List Issue := []

namespace Workspace

/-- The address of a file, in canonical form if there is such a file. -/
def fileUri (fs : FileSystem) (path : String) : String :=
  Uri.ofFilePath ((fs.canonical? path).getD path)

/-- Options that name no file or address take those of the path. -/
def completeOptions (fs : FileSystem) (path : String) (options : TokenFile.Options) :
    TokenFile.Options :=
  { options with
    filePath := if options.filePath.isEmpty then path else options.filePath
    definitionUri :=
      if options.definitionUri.isEmpty then fileUri fs path else options.definitionUri }

/-- Reads a token file. -/
def readTokenFile (fs : FileSystem) (path : String) (options : TokenFile.Options) :
    Except Error TokenFile :=
  match fs.readText path with
  | .error fault => .error (.unreadable fault)
  | .ok content =>
    (TokenFile.parse content (.ofPath path) (completeOptions fs path options)).mapError fun e =>
      match e with
      | .document d => .documentIn path d
      | e => e

/-- Whether a path is that of a token file of the workspace. -/
def isTokenFile (w : Workspace) (path : String) : Bool :=
  (w.targets.any fun t => Path.same t.path path) || w.sources.any fun s => s.filePath = path

/-- The options for a path: those that the last reload settled on, or else those of the
settings. -/
def optionsFor (w : Workspace) (path : String) : TokenFile.Options :=
  match w.targets.find? fun t => Path.same t.path path with
  | some t => t.options
  | none => w.settings.optionsFor path

/-! ## Resolving -/

/-- The version of a batch: the release if a token has it, else the draft. -/
def batchVersion (tokens : List Token) : Version :=
  if tokens.any fun t => t.version = .v2025_10 then .v2025_10 else .draft

/-- The tokens without markers. -/
def withoutMarkers (tokens : List Token) : List Token :=
  tokens.filter fun t => !t.isExtendsMarker

/-- Works in what groups inherit and follows references. -/
def resolveBatch (batch : List Token) :
    Except Error (List Token × List Resolution.Failure) :=
  match Inheritance.expand batch with
  | .error e => .error e
  | .ok expanded =>
    let tokens := withoutMarkers expanded
    match Resolution.lenient tokens (batchVersion tokens) with
    | (resolved, .ok failures) => .ok (resolved, failures)
    | (_, .error e) => .error e

/-- The issue of a broken reference. -/
def failureIssue (f : Resolution.Failure) : Issue :=
  { filePath := if f.token.filePath.isEmpty then none else some f.token.filePath
    position := some ⟨f.token.line, f.token.character⟩
    message := f.token.name ++ ": " ++ f.error.message }

/-- A token with the value that it had before, if its own value is the same. -/
def carryOver (r : Registry) (t : Token) : Token :=
  match r.qualified? t.name t.filePath with
  | some before =>
    match before.isResolved, before.resolvedValue with
    | true, some v => if before.value = t.value then t.markResolved v else t
    | _, _ => t
  | none => t

/-- The tokens of all files. -/
def batch (w : Workspace) : List Token :=
  w.sources.flatMap Source.tokens

/-- Resolves the tokens of all files and publishes them. -/
def resolveAll (w : Workspace) : Workspace × Except Error Nat :=
  match resolveBatch w.batch with
  | .ok (tokens, failures) =>
    ({ w with
        registry := .ofList tokens
        issues := w.loadIssues ++ failures.map failureIssue },
      .ok tokens.length)
  | .error e =>
    ({ w with
        registry := .ofList ((withoutMarkers w.batch).map (carryOver w.registry))
        issues := w.loadIssues ++ [⟨none, none, e.message⟩] },
      .error e)

/-! ## Loading -/

/-- The issue of a file that could not be loaded. -/
def loadIssue (filePath : String) (e : Error) : Issue :=
  ⟨some filePath, none, e.message⟩

/-- The tokens of a target, or the issue that kept it from loading. -/
def loadTarget (fs : FileSystem) (t : Target) : Except Issue Source :=
  match readTokenFile fs t.path t.options with
  | .ok file => .ok ⟨t.options.filePath, file.tokens⟩
  | .error e => .error (loadIssue t.options.filePath e)

/-- The workspace with its files read anew. Files that cannot be loaded are left out. -/
def withFiles (w : Workspace) (fs : FileSystem) (targets : List Target) : Workspace :=
  let loaded := targets.map (loadTarget fs)
  { w with
    targets := targets
    sources := loaded.filterMap fun r => r.toOption
    loadIssues := loaded.filterMap fun r =>
      match r with
      | .error issue => some issue
      | .ok _ => none }

/-- Loads all files anew. -/
def reload (w : Workspace) (fs : FileSystem) : Workspace × Except Error Nat :=
  match w.settings.targets fs w.root with
  | .error e => (w, .error e)
  | .ok targets => resolveAll (w.withFiles fs targets)

/-- Replaces the tokens of a file, or adds the file at the end. -/
def setSource (s : Source) : List Source → List Source
  | [] => [s]
  | t :: rest => if t.filePath = s.filePath then s :: rest else t :: setSource s rest

/-- The workspace with what a file holds now. If that could not be read, the tokens of the file
stay and the error is recorded. -/
def withFile (w : Workspace) (filePath : String) (parsed : Except Error TokenFile) : Workspace :=
  let others := w.loadIssues.filter fun i => i.filePath ≠ some filePath
  match parsed with
  | .ok file =>
    { w with sources := setSource ⟨filePath, file.tokens⟩ w.sources, loadIssues := others }
  | .error e => { w with loadIssues := others ++ [loadIssue filePath e] }

/-- Takes in what a file holds now. The error of a file that could not be read is returned, whatever
becomes of the other tokens. -/
def takeIn (w : Workspace) (filePath : String) (parsed : Except Error TokenFile) :
    Workspace × Except Error Nat :=
  let (w', result) := resolveAll (w.withFile filePath parsed)
  match parsed with
  | .ok _ => (w', result)
  | .error e => (w', .error e)

/-- Loads one file anew. -/
def loadFile (w : Workspace) (fs : FileSystem) (path : String) : Workspace × Except Error Nat :=
  let options := w.optionsFor path
  w.takeIn options.filePath (readTokenFile fs path options)

/-- Replaces the content of one file by a text. -/
def loadText (w : Workspace) (fs : FileSystem) (path text : String) :
    Workspace × Except Error Nat :=
  let options := { w.optionsFor path with definitionUri := fileUri fs path }
  w.takeIn options.filePath (TokenFile.parse text (.ofPath path) options)

end Workspace

end DesignTokens
