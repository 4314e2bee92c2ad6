import DesignTokens.Editor.Params

/-!
# Requests without support

The protocol has more requests than the server answers. Their parameters are checked all the same:
a request with faulty parameters is refused for these, and any other one for its method.

A record is checked in three steps: the fields of its own that are there, then those that are
missing, then the groups of fields that it shares with other records.
-/

namespace DesignTokens.Editor

open Json (Shape ShapeError)

namespace Params

/-- A field of a record. -/
structure FieldRule where
  name : String
  /-- Whether the field has to be there. -/
  needed : Bool
  check : Shape Unit

/-- A record with a name: fields of its own, in order, and groups of fields that it shares. -/
structure RecordRule where
  name : String
  own : List FieldRule
  shared : List (Json.Fields → Except ShapeError Unit) := []

/-- Checks a field that is there. -/
def RecordRule.checkPresent (r : RecordRule) (key : String) (v : Json.Value) :
    Except ShapeError Unit :=
  match r.own.find? fun f => f.name == key with
  | some f => f.check v
  | none => .ok ()

/-- Checks that a field is there, if it has to be. -/
def FieldRule.checkMissing (f : FieldRule) (fields : Json.Fields) : Except ShapeError Unit :=
  if f.needed && !fields.contains f.name then .error (.missingField f.name) else .ok ()

/-- Checks a record. -/
def RecordRule.check (r : RecordRule) : Shape Unit := fun v => do
  let fields ← Shape.record r.name v
  fields.forM fun (key, value) => r.checkPresent key value
  r.own.forM fun f => f.checkMissing fields
  r.shared.forM fun group => group fields

/-! ## Fields -/

/-- A shape of which only the check is of interest. -/
def checked {α : Type} (shape : Shape α) : Shape Unit := fun v =>
  (shape v).map fun _ => ()

/-- A field that has to be there. -/
def need {α : Type} (name : String) (shape : Shape α) : FieldRule :=
  ⟨name, true, checked shape⟩

/-- A field that may be missing or null. -/
def may {α : Type} (name : String) (shape : Shape α) : FieldRule :=
  ⟨name, false, checked (Shape.optional shape)⟩

/-- A boolean. -/
def flag : Shape Unit
  | .bool _ => .ok ()
  | v => Shape.mismatch "a boolean" v

/-- A part of a color. -/
def channel : Shape Unit
  | .number _ => .ok ()
  | v => Shape.mismatch "f32" v

/-- A document and a position, among the fields of a record. -/
def atPosition (fields : Json.Fields) : Except ShapeError Unit :=
  (documentPosition fields).map fun _ => ()

/-- The token for reports of progress. -/
def workDone (fields : Json.Fields) : Except ShapeError Unit :=
  checkProgress fields "workDoneToken"

/-- The token for partial results. -/
def partialResult (fields : Json.Fields) : Except ShapeError Unit :=
  checkProgress fields "partialResultToken"

/-! ## Records inside of parameters -/

/-- A range in a document. -/
def location : Shape Unit :=
  RecordRule.check ⟨"Location", [need "uri" uri, need "range" range], []⟩

/-- A command of the editor. -/
def command : Shape Unit :=
  RecordRule.check
    ⟨"Command",
      [need "title" Shape.text, need "command" Shape.text, may "arguments" (Shape.list Shape.any)],
      []⟩

/-- A report that the editor shows. -/
def diagnostic : Shape Unit :=
  RecordRule.check
    ⟨"Diagnostic",
      [need "range" range, may "severity" Shape.signed, may "code" progressToken,
       may "codeDescription" (RecordRule.check ⟨"CodeDescription", [need "href" uri], []⟩),
       may "source" Shape.text, need "message" Shape.text,
       may "relatedInformation" (Shape.list (RecordRule.check
         ⟨"DiagnosticRelatedInformation",
           [need "location" location, need "message" Shape.text], []⟩)),
       may "tags" (Shape.list Shape.signed)],
      []⟩

/-- A place in a hierarchy of calls or of types. -/
def hierarchyItem (name : String) : Shape Unit :=
  RecordRule.check
    ⟨name,
      [need "name" Shape.text, need "kind" Shape.signed, may "detail" Shape.text, need "uri" uri,
       need "range" range, need "selectionRange" range],
      []⟩

/-- How to lay out a document. -/
def layout : Shape Unit :=
  RecordRule.check
    ⟨"FormattingOptions",
      [need "tabSize" Shape.unsigned, need "insertSpaces" flag,
       may "trimTrailingWhitespace" flag, may "insertFinalNewline" flag,
       may "trimFinalNewlines" flag],
      []⟩

/-- A color. -/
def color : Shape Unit :=
  RecordRule.check
    ⟨"Color",
      [need "red" channel, need "green" channel, need "blue" channel, need "alpha" channel], []⟩

/-! ## Parameters -/

/-- Parameters about a document, with further fields. -/
def onDocument (name : String) (more : List FieldRule) : RecordRule :=
  ⟨name, need "textDocument" documentId :: more, [workDone, partialResult]⟩

/-- Parameters about a position in a document, with further fields. -/
def onPosition (name : String) (more : List FieldRule) : RecordRule :=
  ⟨name, more, [atPosition, workDone, partialResult]⟩

/-- Parameters about an item of a hierarchy. -/
def onItem (name item : String) : RecordRule :=
  ⟨name, [need "item" (hierarchyItem item)], [workDone, partialResult]⟩

/-- Parameters about files, which have addresses in some fields. -/
def onFiles (name file : String) (addresses : List String) : RecordRule :=
  let rule : RecordRule := ⟨file, addresses.map fun field => need field Shape.text, []⟩
  ⟨name, [need "files" (Shape.list rule.check)], []⟩

/-- The parameters of a request that the server does not support. -/
def unsupported? : String → Option RecordRule
  | "textDocument/willSaveWaitUntil" =>
    some ⟨"WillSaveTextDocumentParams",
      [need "textDocument" documentId, need "reason" Shape.signed], []⟩
  | "textDocument/declaration" => some (onPosition "GotoDefinitionParams" [])
  | "textDocument/typeDefinition" => some (onPosition "GotoDefinitionParams" [])
  | "textDocument/implementation" => some (onPosition "GotoDefinitionParams" [])
  | "textDocument/references" =>
    some (onPosition "ReferenceParams"
      [need "context" (RecordRule.check
        ⟨"ReferenceContext", [need "includeDeclaration" flag], []⟩)])
  | "textDocument/prepareCallHierarchy" => some (onPosition "CallHierarchyPrepareParams" [])
  | "callHierarchy/incomingCalls" =>
    some (onItem "CallHierarchyIncomingCallsParams" "CallHierarchyItem")
  | "callHierarchy/outgoingCalls" =>
    some (onItem "CallHierarchyOutgoingCallsParams" "CallHierarchyItem")
  | "textDocument/prepareTypeHierarchy" => some (onPosition "TypeHierarchyPrepareParams" [])
  | "typeHierarchy/supertypes" =>
    some (onItem "TypeHierarchySupertypesParams" "TypeHierarchyItem")
  | "typeHierarchy/subtypes" => some (onItem "TypeHierarchySubtypesParams" "TypeHierarchyItem")
  | "textDocument/documentHighlight" => some (onPosition "DocumentHighlightParams" [])
  | "textDocument/documentLink" => some (onDocument "DocumentLinkParams" [])
  | "documentLink/resolve" =>
    some ⟨"DocumentLink",
      [need "range" range, may "target" uri, may "tooltip" Shape.text], []⟩
  | "textDocument/codeLens" => some (onDocument "CodeLensParams" [])
  | "codeLens/resolve" => some ⟨"CodeLens", [need "range" range, may "command" command], []⟩
  | "textDocument/foldingRange" => some (onDocument "FoldingRangeParams" [])
  | "textDocument/selectionRange" =>
    some (onDocument "SelectionRangeParams" [need "positions" (Shape.list position)])
  | "textDocument/documentSymbol" => some (onDocument "DocumentSymbolParams" [])
  | "textDocument/semanticTokens/full/delta" =>
    some (onDocument "SemanticTokensDeltaParams" [need "previousResultId" Shape.text])
  | "textDocument/semanticTokens/range" =>
    some (onDocument "SemanticTokensRangeParams" [need "range" range])
  | "textDocument/inlineValue" =>
    some (onDocument "InlineValueParams"
      [need "range" range,
       need "context" (RecordRule.check
         ⟨"InlineValueContext",
           [need "frameId" Shape.signed, need "stoppedLocation" range], []⟩)])
  | "textDocument/inlayHint" => some (onDocument "InlayHintParams" [need "range" range])
  | "inlayHint/resolve" =>
    some ⟨"InlayHint", [need "position" position, need "label" Shape.any], []⟩
  | "textDocument/moniker" => some (onPosition "MonikerParams" [])
  | "completionItem/resolve" =>
    some ⟨"CompletionItem",
      [need "label" Shape.text, may "kind" Shape.signed, may "detail" Shape.text,
       may "deprecated" flag, may "preselect" flag, may "sortText" Shape.text,
       may "filterText" Shape.text, may "insertText" Shape.text], []⟩
  | "textDocument/diagnostic" =>
    some (onDocument "DocumentDiagnosticParams"
      [may "identifier" Shape.text, may "previousResultId" Shape.text])
  | "workspace/diagnostic" =>
    some ⟨"WorkspaceDiagnosticParams",
      [may "identifier" Shape.text,
       need "previousResultIds" (Shape.list (RecordRule.check
         ⟨"PreviousResultId", [need "uri" uri, need "value" Shape.text], []⟩))],
      [workDone, partialResult]⟩
  | "textDocument/signatureHelp" => some (onPosition "SignatureHelpParams" [])
  | "textDocument/codeAction" =>
    some (onDocument "CodeActionParams"
      [need "range" range,
       need "context" (RecordRule.check
         ⟨"CodeActionContext",
           [need "diagnostics" (Shape.list diagnostic), may "only" (Shape.list Shape.text),
            may "triggerKind" Shape.signed], []⟩)])
  | "codeAction/resolve" =>
    some ⟨"CodeAction",
      [need "title" Shape.text, may "kind" Shape.text, may "diagnostics" (Shape.list diagnostic),
       may "command" command, may "isPreferred" flag], []⟩
  | "textDocument/documentColor" => some (onDocument "DocumentColorParams" [])
  | "textDocument/colorPresentation" =>
    some (onDocument "ColorPresentationParams" [need "color" color, need "range" range])
  | "textDocument/formatting" =>
    some (onDocument "DocumentFormattingParams" [need "options" layout])
  | "textDocument/rangeFormatting" =>
    some (onDocument "DocumentRangeFormattingParams"
      [need "range" range, need "options" layout])
  | "textDocument/onTypeFormatting" =>
    some ⟨"DocumentOnTypeFormattingParams",
      [need "ch" Shape.text, need "options" layout], [atPosition]⟩
  | "textDocument/rename" => some (onPosition "RenameParams" [need "newName" Shape.text])
  | "textDocument/prepareRename" =>
    some ⟨"TextDocumentPositionParams",
      [need "textDocument" documentId, need "position" position], []⟩
  | "textDocument/linkedEditingRange" => some (onPosition "LinkedEditingRangeParams" [])
  | "workspace/symbol" =>
    some ⟨"WorkspaceSymbolParams", [need "query" Shape.text], [partialResult, workDone]⟩
  | "workspaceSymbol/resolve" =>
    some ⟨"WorkspaceSymbol",
      [need "name" Shape.text, need "kind" Shape.signed, may "containerName" Shape.text,
       need "location" Shape.any], []⟩
  | "workspace/willCreateFiles" => some (onFiles "CreateFilesParams" "FileCreate" ["uri"])
  | "workspace/willRenameFiles" =>
    some (onFiles "RenameFilesParams" "FileRename" ["oldUri", "newUri"])
  | "workspace/willDeleteFiles" => some (onFiles "DeleteFilesParams" "FileDelete" ["uri"])
  | "workspace/executeCommand" =>
    some ⟨"ExecuteCommandParams",
      [need "command" Shape.text, ⟨"arguments", false, checked (Shape.list Shape.any)⟩],
      [workDone]⟩
  | _ => none

end Params

end DesignTokens.Editor
