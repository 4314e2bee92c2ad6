import DesignTokens.Token

/-!
# References between tokens

A value may refer to tokens by paths in braces, `{color.red}`, and outside of the draft version by
a JSON pointer, `#/color/red`. Only a reference that is the whole value is followed.
-/

namespace DesignTokens

/-- How a reference is written. -/
inductive ReferenceKind where
  | curly
  | pointer
deriving DecidableEq, Repr

/-- A reference in a value. -/
structure Reference where
  kind : ReferenceKind
  path : String
deriving DecidableEq, Repr

namespace Reference

/-- The token name of a dotted path. -/
def dottedToName (path : String) : String :=
  Text.replaceChar '.' '-' path

/-- The token name of a pointer's path. -/
def slashedToName (path : String) : String :=
  Text.replaceChar '/' '-' path

/-- The name of the token that is referred to. -/
def tokenName (r : Reference) : String :=
  match r.kind with
  | .curly => dottedToName r.path
  | .pointer => slashedToName r.path

/-- The texts between braces: each from an opening brace to the next closing one, if something
stands between them. `inside` holds the characters since the opening brace, the last first. -/
def braceGroups : (inside : Option (List Char)) → List Char → List (List Char)
  | _, [] => []
  | none, c :: cs => if c = '{' then braceGroups (some []) cs else braceGroups none cs
  | some group, c :: cs =>
    if c ≠ '}' then braceGroups (some (c :: group)) cs
    else if group.isEmpty then braceGroups none cs
    else group.reverse :: braceGroups none cs

/-- The paths in braces, in order, without the blanks around them. -/
def curlyPaths (value : String) : List String :=
  (braceGroups none value.toList).map fun group => String.ofList (Text.trimChars group)

/-- The path of a value that is a pointer. -/
def pointerPath? (value : String) : Option String :=
  Text.afterStart? "#/" value

/-- The path of a value that is one reference in braces and nothing else but blanks. -/
def wholePath? (value : String) : Option String :=
  match curlyPaths value with
  | [path] =>
    let body := Text.trimChars value.toList
    if body.head? = some '{' ∧ body.getLast? = some '}' then some path else none
  | _ => none

/-- The references in a value; pointers count outside of the draft version. -/
def extract (value : String) (version : Version) : List Reference :=
  let curly := (curlyPaths value).map fun path => { kind := .curly, path := path : Reference }
  if version = .draft then curly
  else
    match pointerPath? value with
    | some path => curly ++ [⟨.pointer, path⟩]
    | none => curly

/-- The dotted path of a pointer. -/
def pointerToDotted (pointer : String) : String :=
  Text.replaceChar '/' '.' ((pointerPath? pointer).getD pointer)

/-- The pointer of a dotted path. -/
def dottedToPointer (path : String) : String :=
  "#/" ++ Text.replaceChar '.' '/' path

/-- A list without the later ones of equal elements. -/
def distinct : (seen : List String) → List String → List String
  | _, [] => []
  | seen, s :: rest =>
    if s ∈ seen then distinct seen rest else s :: distinct (s :: seen) rest

end Reference

/-- The names that a token refers to, each once, in the order of their first appearance. -/
def Token.dependencies (t : Token) (version : Version) : List String :=
  match t.referenceText? with
  | none => []
  | some text => Reference.distinct [] ((Reference.extract text version).map Reference.tokenName)

end DesignTokens
