import DesignTokens.Discovery.IgnoreFile
import DesignTokens.FileSystem

/-!
# Finding token files

Without settings, the token files of a workspace are those below its root whose names say so.
Directories whose names start with a point and installed packages are passed over, and so is what
ignore files exclude: those named `.ignore` always, and those of a repository where there is one.
-/

namespace DesignTokens

namespace Discovery

/-- The rules that a directory brings, for paths in it. -/
structure Scope where
  /-- The names from the root of the file system to the directory. -/
  names : List String
  /-- The rules of `.ignore`. -/
  own : List IgnoreRule
  /-- The rules of `.gitignore`. -/
  shared : List IgnoreRule
  /-- The rules of a repository's own exclude file. -/
  excluded : List IgnoreRule
  /-- Whether the directory is the root of a repository. -/
  isRepository : Bool

/-- The rules of the file at the end of a list of names. -/
def rulesAt (directory : Entry) (names : List String) : List IgnoreRule :=
  match directory.find? names with
  | some (.file content) =>
    match String.fromUTF8? content with
    | some text => ignoreRules text
    | none => []
  | _ => []

/-- The scope of a directory. -/
def scopeOf (names : List String) (directory : Entry) : Scope :=
  { names := names
    own := rulesAt directory [".ignore"]
    shared := rulesAt directory [".gitignore"]
    excluded := rulesAt directory [".git", "info", "exclude"]
    isRepository := (directory.find? [".git"]).isSome }

/-- The scopes up to the innermost repository, the innermost first. Outside of repositories there
are none. -/
def repositoryScopes : List Scope → List Scope
  | [] => []
  | s :: outer => if s.isRepository then [s] else s :: repositoryScopes outer

/-- The first verdict of scopes that is not silent. -/
def firstVerdict (rules : Scope → List IgnoreRule) (names : List String) (isDirectory : Bool)
    (scopes : List Scope) : Verdict :=
  scopes.foldr (fun s rest =>
    (verdict (rules s) (Text.join "/" (names.drop s.names.length)) isDirectory).orElse rest) .silent

/-- Whether an entry is excluded; scopes are given from the innermost on. -/
def isIgnored (scopes : List Scope) (names : List String) (isDirectory : Bool) : Bool :=
  let inner := if scopes.any Scope.isRepository then repositoryScopes scopes else []
  ((firstVerdict Scope.own names isDirectory scopes).orElse
    ((firstVerdict Scope.shared names isDirectory inner).orElse
      (firstVerdict Scope.excluded names isDirectory inner))) = .ignored

/-- Whether a name is passed over. -/
def isPassedOver (name : String) : Bool :=
  Text.startsWith "." name || name = "node_modules"

/-- Whether a name is that of a token file. -/
def isTokenFileName (name : String) : Bool :=
  name = "tokens.json" || name = "design-tokens.json" || Text.endsWith ".tokens.json" name

mutual

/-- The token files in an entry at a path, which is not excluded itself. -/
def foundIn (outer : List Scope) (names : List String) (path : String) : Entry → List String
  | .file _ => []
  | .directory entries =>
    foundAmong (scopeOf names (.directory entries) :: outer) names path entries

/-- The token files among the entries of a directory. -/
def foundAmong (scopes : List Scope) (names : List String) (path : String) :
    List (String × Entry) → List String
  | [] => []
  | (name, e) :: rest =>
    (if isPassedOver name || isIgnored scopes (names ++ [name]) e.isDirectory then []
     else if !e.isDirectory then if isTokenFileName name then [Path.join path name] else []
     else foundIn scopes (names ++ [name]) (Path.join path name) e)
    ++ foundAmong scopes names path rest

end

/-- The scopes of the directories above one, the innermost first. -/
def scopesAbove (root : Entry) : List String → List Scope
  | names =>
    ((List.range names.length).reverse.map fun k => names.take k).map fun above =>
      scopeOf above ((root.find? above).getD (.directory []))

/-- The token files below a path, in the order of paths. -/
def tokenFiles (fs : FileSystem) (path : String) : List String :=
  match fs.resolve path with
  | .error _ => []
  | .ok names =>
    match fs.root.find? names with
    | some (.file _) =>
      if isTokenFileName ((Path.fileName? path).getD path) then [path] else []
    | some e => (foundIn (scopesAbove fs.root names) names path e).mergeSort Path.le
    | none => []

end Discovery

end DesignTokens
