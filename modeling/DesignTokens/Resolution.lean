import DesignTokens.Graph

/-!
# Following references

A batch of tokens is resolved name by name in the order of its dependency graph, so that a token
finds its target resolved. The first token of the batch with a name stands for that name. A cycle
refuses the whole batch. In the strict mode so does the first broken reference; in the lenient mode
a broken reference leaves its token unresolved, and with it the tokens that refer to that one.
-/

namespace DesignTokens

namespace Resolution

/-- The value of the token that a reference names, once that is resolved. -/
def dereference (find : String → Option Token) (name reference : String) :
    Except Error Json.Value :=
  match find name with
  | none => .error (.missingReference reference)
  | some target =>
    match target.isResolved, target.resolvedValue with
    | true, some v => .ok v
    | _, _ => .error (.unresolvedDependency reference)

/-- The resolved value of a token, with its targets found by `find`. A reference in braces is
followed only where it is the whole value, a pointer only where there are no braces and outside of
the draft version. -/
def resolvedValue (t : Token) (find : String → Option Token) (version : Version) :
    Except Error Json.Value :=
  match t.referenceText? with
  | none => .ok t.ownValue
  | some text =>
    if (Reference.curlyPaths text).isEmpty then
      match (if version = .draft then none else Reference.pointerPath? text) with
      | some path => dereference find (Reference.slashedToName path) text
      | none => .ok t.ownValue
    else
      match Reference.wholePath? text with
      | some path => dereference find (Reference.dottedToName path) path
      | none => .ok (.string text)

/-- The first token of a batch with a name. -/
def first (tokens : List Token) (name : String) : Option Token :=
  tokens.find? fun t => t.name = name

/-- Resolves one token; one that is resolved stays as it is. -/
def resolveToken (t : Token) (find : String → Option Token) (version : Version) :
    Except Error Token :=
  if t.isResolved then .ok t
  else
    match resolvedValue t find (t.effectiveVersion version) with
    | .ok v => .ok (t.markResolved v)
    | .error e => .error e

/-- A token that stays unresolved, and why. -/
structure Failure where
  token : Token
  error : Error

/-- Whether the first broken reference ends a pass, or only costs the tokens that it stands
behind. -/
inductive Mode where
  | strict
  | lenient
deriving DecidableEq, Repr

/-- The places in a batch of the tokens with a name. -/
def places (tokens : List Token) (name : String) : List Nat :=
  (tokens.zipIdx.filter fun p => p.1.name = name).map Prod.snd

/-- The failure to report for an error, if it is the token's own reference that is broken. -/
def reported? (t : Token) : Error → Option Failure
  | .unresolvedDependency _ => none
  | e => some ⟨t, e⟩

/-- Resolves the tokens at some places of a batch one after the other, each in the batch that the
ones before have left. Gives the batch as it stands when the pass ends, whether by an error or at
the last place. -/
def pass (mode : Mode) (version : Version) :
    List Nat → List Token → List Token × Except Error (List Failure)
  | [], tokens => (tokens, .ok [])
  | i :: rest, tokens =>
    match tokens[i]? with
    | none => pass mode version rest tokens
    | some t =>
      match resolveToken t (first tokens) version with
      | .ok t' => pass mode version rest (tokens.set i t')
      | .error e =>
        match mode with
        | .strict => (tokens, .error e)
        | .lenient =>
          let (tokens', result) := pass .lenient version rest tokens
          (tokens', result.map fun failures => (reported? t e).toList ++ failures)

/-- Resolves a batch in place, name by name in the order of its graph. A cycle ends it before
anything is resolved. -/
def inOrder (mode : Mode) (tokens : List Token) (version : Version) :
    List Token × Except Error (List Failure) :=
  match (Graph.ofTokens tokens version).order with
  | .error e => (tokens, .error e)
  | .ok names => pass mode version (names.flatMap (places tokens)) tokens

/-- Resolves every token of a batch, or none of them: the work is done on a copy, which replaces
the batch only when all went well. -/
def strict (tokens : List Token) (version : Version) : List Token × Except Error Unit :=
  match inOrder .strict tokens version with
  | (scratch, .ok _) => (scratch, .ok ())
  | (_, .error e) => (tokens, .error e)

/-- Resolves the tokens of a batch that no broken reference stands behind, and reports the broken
references. -/
def lenient (tokens : List Token) (version : Version) :
    List Token × Except Error (List Failure) :=
  inOrder .lenient tokens version

end Resolution

end DesignTokens
