import DesignTokens.Workspace

/-!
# Files of the disk

A session is given its files as a tree. The tree is filled from the disk with what a workspace may
look at: the directories below its root, in which token files are found by their names, its package
description, and the files that its settings name. Links are not followed, and only files that may
be read have their content.
-/

namespace DesignTokens

namespace Disk

/-- The names after one more component of a path. -/
def follow (names : List String) : Path.Component → List String
  | .root => []
  | .current => names
  | .parent => names.dropLast
  | .name s => names ++ [s]

/-- The names from the root of the disk to what a path leads to. -/
def namesOf (current : List String) (path : String) : List String :=
  (Path.components path).foldl follow current

/-- The path with the names from the root on. -/
def pathOf (names : List String) : String :=
  "/" ++ Text.join "/" names

/-- The file under names, if it can be read. -/
def file? (names : List String) : IO (Option Entry) := do
  let .ok content ← (IO.FS.readBinFile (pathOf names)).toBaseIO | return none
  return some (.file content)

/-- The entries of a directory that are no links, and whether they are directories. -/
def list? (names : List String) : IO (Option (List (String × Bool))) := do
  let .ok path ← (IO.FS.realPath (pathOf names)).toBaseIO | return none
  let .ok found ← path.readDir.toBaseIO | return none
  let mut entries := []
  for e in found do
    if let .ok data ← e.path.symlinkMetadata.toBaseIO then
      if data.type == .dir || data.type == .file then
        entries := (e.fileName, data.type == .dir) :: entries
  return some entries

/-- What a repository has in a directory: its exclude file. -/
def repository (names : List String) : IO Entry := do
  match ← file? (names ++ ["info", "exclude"]) with
  | some exclude => return .directory [("info", .directory [("exclude", exclude)])]
  | none => return .directory []

/-- The names of files with rules for what is excluded. -/
def ruleFiles : List String := [".ignore", ".gitignore"]

mutual

/-- What finding token files looks at in an entry of a directory. -/
partial def entry (names : List String) (name : String) (isDirectory : Bool) : IO Entry := do
  if name = ".git" then repository (names ++ [name])
  else if isDirectory then
    if Discovery.isPassedOver name then return .directory []
    else return (← directory? (names ++ [name])).getD (.directory [])
  else if Discovery.isTokenFileName name || ruleFiles.contains name then
    return (← file? (names ++ [name])).getD (.file .empty)
  else return .file .empty

/-- What finding token files looks at in a directory. -/
partial def directory? (names : List String) : IO (Option Entry) := do
  let some found ← list? names | return none
  let entries ← found.mapM fun (name, isDirectory) => do
    return (name, ← entry names name isDirectory)
  return some (.directory entries)

end

/-- The rules that a directory has for what is below it. -/
def rules (names : List String) : IO Entry := do
  let found := ((← list? names).getD []).filter fun e => e.1 = ".git" || ruleFiles.contains e.1
  let entries ← found.mapM fun (name, isDirectory) => do
    return (name, ← entry names name isDirectory)
  return .directory entries

/-- The files with a workspace's settings, and those that its settings name. -/
def namedFiles (w : Workspace) : List String :=
  (w.root.map fun root => Path.join root "package.json").toList
    ++ w.settings.tokenFiles.map fun e => Settings.filePath w.root e.path

/-- The files that a workspace may look at. -/
def snapshot (w : Workspace) : IO FileSystem := do
  let current := namesOf [] (← IO.currentDir).toString
  let mut fs : FileSystem := { FileSystem.empty with current := current }
  if let some root := w.root then
    let names := namesOf current root
    for k in List.range names.length do
      fs := fs.write (names.take k) (← rules (names.take k))
    if let some found ← directory? names then fs := fs.write names found
  for path in namedFiles w do
    let names := namesOf current path
    if let some found ← file? names then fs := fs.write names found
  -- Relative paths start in a directory that is there.
  if (fs.root.find? current).isNone then fs := fs.write current (.directory [])
  return fs

end Disk

end DesignTokens
