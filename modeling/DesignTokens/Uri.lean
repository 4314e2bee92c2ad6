import DesignTokens.Path
import DesignTokens.Uri.Host

/-!
# Addresses

Documents and definitions are named by addresses. An address is read from a text in any usual
spelling and kept in one normal form: scheme and host in lower case, path segments of points
worked in, characters encoded where they must be, default ports left out. `Uri.ofFilePath` and
`Uri.filePath?` go between file paths and addresses.
-/

namespace DesignTokens

namespace Uri

/-- Who serves an address. -/
structure Authority where
  user : String := ""
  password : String := ""
  host : String := ""
  port : Option Nat := none
deriving DecidableEq, Repr

/-- The path of an address. -/
inductive UriPath where
  /-- A path without structure. -/
  | plain (text : String)
  | segments (names : List String)
deriving DecidableEq, Repr

end Uri

/-- An address. -/
structure Uri where
  scheme : String
  authority : Option Uri.Authority
  path : Uri.UriPath
  query : Option String := none
  fragment : Option String := none
deriving DecidableEq, Repr

namespace Uri

/-! ## Printing -/

/-- The text of an authority. -/
def Authority.text (a : Authority) : String :=
  let secret := if a.password.isEmpty then "" else ":" ++ a.password
  let info := if a.user.isEmpty && a.password.isEmpty then "" else a.user ++ secret ++ "@"
  let port := match a.port with
    | some n => ":" ++ Nat.repr n
    | none => ""
  info ++ a.host ++ port

/-- The text of a path; without an authority it must not start like one. -/
def UriPath.text (hasAuthority : Bool) : UriPath → String
  | .plain text => text
  | .segments names =>
    let body := String.join (names.map ("/" ++ ·))
    if !hasAuthority && names.head? = some "" && 1 < names.length then "/." ++ body else body

/-- The text of an address. -/
def text (u : Uri) : String :=
  let authority := match u.authority with
    | some a => "//" ++ a.text
    | none => ""
  let query := match u.query with
    | some q => "?" ++ q
    | none => ""
  let fragment := match u.fragment with
    | some f => "#" ++ f
    | none => ""
  u.scheme ++ ":" ++ authority ++ u.path.text u.authority.isSome ++ query ++ fragment

/-! ## Reading -/

/-- What is known of a scheme. -/
inductive SchemeKind where
  | file
  /-- A scheme with hosts and a default port. -/
  | hosted (port : Nat)
  | other
deriving DecidableEq, Repr

/-- The kind of a scheme. -/
def SchemeKind.of (scheme : String) : SchemeKind :=
  if scheme = "file" then .file
  else if scheme = "http" ∨ scheme = "ws" then .hosted 80
  else if scheme = "https" ∨ scheme = "wss" then .hosted 443
  else if scheme = "ftp" then .hosted 21
  else .other

/-- Whether backslashes count as slashes and paths are never empty. -/
def SchemeKind.isSpecial (k : SchemeKind) : Bool :=
  k ≠ .other

/-- Whether a character separates segments. -/
def isSlash (kind : SchemeKind) (c : Char) : Bool :=
  c = '/' || (kind.isSpecial && c = '\\')

/-- The pieces between separators. -/
def splitSlashes (kind : SchemeKind) (cs : List Char) : List (List Char) :=
  Text.splitChars '/' (cs.map fun c => if isSlash kind c then '/' else c)

/-- A letter and a colon or bar: a drive. -/
def isDrive : List Char → Bool
  | [a, b] => a.isAlpha && (b = ':' || b = '|')
  | _ => false

/-- A segment with encoded points decoded. -/
def dots : List Char → List Char
  | '%' :: '2' :: 'e' :: rest => '.' :: dots rest
  | '%' :: '2' :: 'E' :: rest => '.' :: dots rest
  | c :: rest => c :: dots rest
  | [] => []

/-- The segments without the last; a drive stays. -/
def shorten (kind : SchemeKind) (names : List String) : List String :=
  match names with
  | [name] => if kind = .file && isDrive name.toList then names else []
  | _ => names.dropLast

/-- A segment in normal form, the first of a path if `first`. -/
def segmentText (kind : SchemeKind) (first : Bool) (segment : List Char) : String :=
  match segment with
  | [a, b] =>
    if first && kind = .file && isDrive [a, b] then String.ofList [a, ':']
    else String.ofList (encode inPath segment)
  | _ => String.ofList (encode inPath segment)

/-- The segments of a path: a point stands for the directory itself and two points for the one
above. Either at the end leaves an empty segment. -/
def normalize (kind : SchemeKind) : (done : List String) → List (List Char) → List String
  | done, [] => done
  | done, segment :: rest =>
    if dots segment = ['.', '.'] then
      let up := shorten kind done
      normalize kind (if rest.isEmpty then up ++ [""] else up) rest
    else if dots segment = ['.'] then
      normalize kind (if rest.isEmpty then done ++ [""] else done) rest
    else normalize kind (done ++ [segmentText kind done.isEmpty segment]) rest

/-- Drops empty segments at the front, but for the last segment. -/
def dropEmpty : List String → List String
  | "" :: next :: rest => dropEmpty (next :: rest)
  | names => names

/-- Reads a path. -/
def readPath (kind : SchemeKind) (cs : List Char) : UriPath :=
  let body := match cs with
    | c :: rest => if isSlash kind c then rest else c :: rest
    | [] => []
  if cs.isEmpty ∧ !kind.isSpecial then .segments []
  else
    let names := normalize kind [] (splitSlashes kind body)
    .segments (if kind = .file then dropEmpty names else names)

/-- The text up to the first character of some kind, and the rest. -/
def cutAt (p : Char → Bool) (cs : List Char) : List Char × List Char :=
  (cs.takeWhile fun c => !p c, cs.dropWhile fun c => !p c)

/-- The text before a query or a fragment, the query and the fragment. -/
def cutTail (cs : List Char) : List Char × Option (List Char) × Option (List Char) :=
  let (head, fragment) := cutAt (· = '#') cs
  let (path, query) := cutAt (· = '?') head
  (path, query.tail?, fragment.tail?)

/-- Reads a port; none if it is missing or the scheme's own. -/
def readPort (kind : SchemeKind) (cs : List Char) : Except Fault (Option Nat) :=
  if cs.isEmpty then .ok none
  else
    match digitsValue? 10 cs with
    | none => .error .badPort
    | some n =>
      if 65535 < n then .error .badPort
      else if kind = .hosted n then .ok none
      else .ok (some n)

/-- The host and the port of a text, if it has a colon; one in brackets does not count. -/
def cutPort : (inBrackets : Bool) → List Char → List Char × Option (List Char)
  | _, [] => ([], none)
  | inBrackets, c :: cs =>
    if c = ':' ∧ !inBrackets then ([], some cs)
    else
      let (host, port) :=
        cutPort (if c = '[' then true else if c = ']' then false else inBrackets) cs
      (c :: host, port)

/-- The text before the last `@`, if there is one, and the text after it. -/
def cutUser (cs : List Char) : Option (List Char) × List Char :=
  let (after, before) := cutAt (· = '@') cs.reverse
  match before with
  | [] => (none, cs)
  | _ :: user => (some user.reverse, after.reverse)

/-- Reads an authority. -/
def readAuthority (kind : SchemeKind) (cs : List Char) : Except Fault Authority := do
  let (info, hostPort) := cutUser cs
  let (user, secret) := cutAt (· = ':') (info.getD [])
  let (hostText, portText) := cutPort false hostPort
  if hostText.isEmpty ∧ (kind.isSpecial ∨ portText.isSome ∨ info.isSome) then throw .emptyHost
  let host ← if kind.isSpecial then domainHost hostText else plainHost hostText
  let port ← readPort kind (portText.getD [])
  return { user := String.ofList (encode inUserInfo user)
           password := String.ofList (encode inUserInfo (secret.drop 1))
           host := host, port := port }

/-- Reads the host of a file. -/
def readFileHost (cs : List Char) : Except Fault Authority :=
  if cs.isEmpty then .ok {}
  else (domainHost cs).map fun host => if host = "localhost" then {} else { host := host }

/-- An address with its query and fragment. -/
def assemble (scheme : String) (kind : SchemeKind) (authority : Option Authority) (path : UriPath)
    (query fragment : Option (List Char)) : Uri :=
  { scheme := scheme, authority := authority, path := path
    query := query.map fun q => String.ofList (encode (inQuery kind.isSpecial) q)
    fragment := fragment.map fun f => String.ofList (encode inFragment f) }

/-- A file address whose path starts with a drive has no host. -/
def dropDriveHost (a : Authority) : UriPath → Authority
  | .segments (name :: _) => if isDrive name.toList then {} else a
  | _ => a

/-- Reads what follows the scheme. -/
def readRest (scheme : String) (rest : List Char) : Except Fault Uri := do
  let kind := SchemeKind.of scheme
  let (body, query, fragment) := cutTail rest
  match kind with
  | .file =>
    match body with
    | a :: b :: tail =>
      if isSlash kind a && isSlash kind b then
        let (hostText, path) := cutAt (isSlash kind) tail
        if isDrive hostText then
          return assemble scheme kind (some {}) (readPath kind tail) query fragment
        let authority ← readFileHost hostText
        let path := readPath kind path
        return assemble scheme kind (some (dropDriveHost authority path)) path query fragment
      else return assemble scheme kind (some {}) (readPath kind body) query fragment
    | _ => return assemble scheme kind (some {}) (readPath kind body) query fragment
  | .hosted _ =>
    let (authorityText, path) := cutAt (isSlash kind) (body.dropWhile (isSlash kind))
    let authority ← readAuthority kind authorityText
    return assemble scheme kind (some authority) (readPath kind path) query fragment
  | .other =>
    match body with
    | '/' :: '/' :: tail =>
      let (authorityText, path) := cutAt (isSlash kind) tail
      let authority ← readAuthority kind authorityText
      return assemble scheme kind (some authority) (readPath kind path) query fragment
    | '/' :: _ => return assemble scheme kind none (readPath kind body) query fragment
    | _ =>
      return assemble scheme kind none (.plain (String.ofList (encode inControls body))) query
        fragment

/-- Whether a character may stand in a scheme. -/
def isSchemeChar (c : Char) : Bool :=
  c.isAlphanum || c = '+' || c = '-' || c = '.'

/-- Whether a character is dropped at the ends of an address. -/
def isPadding (c : Char) : Bool :=
  c.toNat ≤ 0x20

/-- Whether a character is dropped anywhere in an address. -/
def isDropped (c : Char) : Bool :=
  c = '\t' || c = '\n' || c = '\r'

/-- Reads an address. -/
def parse (text : String) : Except Fault Uri :=
  let trimmed := ((text.toList.dropWhile isPadding).reverse.dropWhile isPadding).reverse
  let cs := trimmed.filter fun c => !isDropped c
  let (scheme, rest) := cutAt (fun c => !isSchemeChar c) cs
  match scheme, rest with
  | c :: _, ':' :: body =>
    if c.isAlpha then readRest (String.ofList (scheme.map Char.toLower)) body
    else .error .relative
  | _, _ => .error .relative

/-! ## Files -/

/-- The address of an absolute file path, as text. A path that is not absolute follows the scheme as
it is. -/
def ofFilePath (path : String) : String :=
  if Path.isAbsolute path then
    let segments := ((Path.components path).drop 1).map fun c =>
      String.ofList ('/' :: encode inSegment c.text.toList)
    "file://" ++ if segments.isEmpty then "/" else String.join segments
  else "file://" ++ path

/-- A file path that ends with a drive has a slash after it. -/
def closeDrive (path : String) : String :=
  match path.toList.reverse with
  | b :: a :: _ :: _ => if isDrive [a, b] then path ++ "/" else path
  | _ => path

/-- The file path of an address that has a path of segments and no host but this one. -/
def filePath? (u : Uri) : Option String :=
  match u.path with
  | .plain _ => none
  | .segments names =>
    let host := (u.authority.map Authority.host).getD ""
    if names.isEmpty ∨ (host ≠ "" ∧ host ≠ "localhost") then none
    else
      (names.mapM fun name => decode? name.toList).map fun parts =>
        closeDrive (String.join (parts.map ("/" ++ ·)))

end Uri

end DesignTokens
