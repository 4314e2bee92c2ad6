import DesignTokens.Text.Lines
import DesignTokens.Uri

/-!
# Open documents

The documents that an editor has open, each under its address. They are kept in the order of their
addresses.
-/

namespace DesignTokens.Editor

/-- An open document. -/
structure Document where
  text : String
  /-- The editor's version of the text. -/
  version : Int
  languageId : String
deriving DecidableEq, Repr

/-- The number of lines of a document. -/
def Document.lineCount (d : Document) : Nat :=
  (Text.lines d.text.toList).length

/-- The open documents by address. -/
structure Documents where
  entries : List (Uri × Document) := []
deriving Repr, Inhabited

namespace Documents

/-- Puts a document under an address, in the order of addresses. -/
def insert (uri : Uri) (d : Document) : List (Uri × Document) → List (Uri × Document)
  | [] => [(uri, d)]
  | (u, e) :: rest =>
    if uri = u then (uri, d) :: rest
    else if uri.text < u.text then (uri, d) :: (u, e) :: rest
    else (u, e) :: insert uri d rest

/-- The document under an address. -/
def get? (ds : Documents) (uri : Uri) : Option Document :=
  (ds.entries.find? fun e => e.1 = uri).map Prod.snd

/-- Opens a document. -/
def openAs (ds : Documents) (uri : Uri) (d : Document) : Documents :=
  ⟨insert uri d ds.entries⟩

/-- Replaces the text of a document that is open. -/
def update (ds : Documents) (uri : Uri) (text : String) (version : Int) : Documents :=
  ⟨ds.entries.map fun e =>
    if e.1 = uri then (uri, { e.2 with text := text, version := version }) else e⟩

/-- Closes a document. -/
def close (ds : Documents) (uri : Uri) : Documents :=
  ⟨ds.entries.filter fun e => e.1 ≠ uri⟩

/-- The addresses of the open documents, in order. -/
def uris (ds : Documents) : List Uri :=
  ds.entries.map Prod.fst

end Documents

end DesignTokens.Editor
