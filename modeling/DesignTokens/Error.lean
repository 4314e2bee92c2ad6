import DesignTokens.Json.Fault
import DesignTokens.Text.Edit
import DesignTokens.Version
import DesignTokens.Yaml.Reader

/-!
# Errors

Every cause for which an operation on tokens, files or settings is refused, and its wording.
-/

namespace DesignTokens

/-- Why a file could not be read. -/
inductive FileFault where
  | notFound
  | notDirectory
  | isDirectory
  | nameTooLong
  | nulInPath
  | notText
deriving DecidableEq, Repr

/-- The wording of a file fault. -/
def FileFault.message : FileFault → String
  | .notFound => "No such file or directory (os error 2)"
  | .notDirectory => "Not a directory (os error 20)"
  | .isDirectory => "Is a directory (os error 21)"
  | .nameTooLong => "File name too long (os error 36)"
  | .nulInPath => "file name contained an unexpected NUL byte"
  | .notText => "stream did not contain valid UTF-8"

/-- Why a document could not be read. -/
inductive DocumentError where
  | json (e : Json.Error)
  | yaml (e : Yaml.Error)
deriving Repr

/-- The wording of a document error. -/
def DocumentError.message : DocumentError → String
  | .json e => "JSON parsing error: " ++ e.message
  | .yaml e => "YAML parsing error: " ++ e.message

/-- Why settings were refused. -/
inductive SettingsError where
  /-- The settings are no object. -/
  | notObject
  /-- The settings do not have the right form; the text says where. -/
  | invalid (reason : String)
  /-- An entry of the file list names no file; the text shows the entry. -/
  | blankPath (entry : String)
deriving DecidableEq, Repr

/-- The wording of a settings error. -/
def SettingsError.message : SettingsError → String
  | .notObject => "settings must be a JSON object"
  | .invalid reason => "invalid settings: " ++ reason
  | .blankPath entry => "tokensFiles entry has an empty path: " ++ entry

/-- Why an operation was refused. -/
inductive Error where
  | unreadable (fault : FileFault)
  | document (e : DocumentError)
  /-- A document error in a file. -/
  | documentIn (path : String) (e : DocumentError)
  /-- A token without a name. -/
  | unnamedToken (file : String)
  | tokenNotFound (name : String)
  /-- Names that depend on each other; the first is repeated at the end. -/
  | circular (chain : List String)
  | missingReference (reference : String)
  | unresolvedDependency (reference : String)
  /-- A document that is no object. -/
  | rootNotObject (file : String)
  | schema (e : SchemaError)
  | settings (e : SettingsError)
deriving Repr

/-- The wording of an error. -/
def Error.message : Error → String
  | .unreadable fault => "IO error: " ++ fault.message
  | .document e => e.message
  | .documentIn path e => "Parse error: failed to parse " ++ path ++ ": " ++ e.message
  | .unnamedToken file => "Invalid token: token from '" ++ file ++ "' has no name"
  | .tokenNotFound name => "Token not found: " ++ name
  | .circular chain => "circular reference detected: " ++ Text.join " → " chain
  | .missingReference reference => "reference to non-existent token: " ++ reference
  | .unresolvedDependency reference => "referenced token not yet resolved: " ++ reference
  | .rootNotObject file =>
    "failed to detect schema version for " ++ file ++ ": document root is not an object"
  | .schema e => e.message
  | .settings e => "Configuration error: " ++ e.message

end DesignTokens
