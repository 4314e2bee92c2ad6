import DesignTokens.Position
import DesignTokens.Text.Blank
import DesignTokens.Text.Edit
import DesignTokens.Text.Lines
import DesignTokens.Text.Units

/-!
# Usages of tokens in documents

A document uses a token by a CSS call, `var(--name)` with or without a fallback, or by an alias in
braces, `{group.name}`. Both stand on one line. `usages` finds them from left to right and
`completion?` tells what is being typed before a position.
-/

namespace DesignTokens.Editor

/-- How a token is used. -/
inductive UsageKind where
  /-- `var(--name)` -/
  | cssVariable
  /-- `{group.name}` -/
  | reference
deriving DecidableEq, Repr

/-- A usage of a token. -/
structure Usage where
  kind : UsageKind
  /-- The CSS variable or the dotted path. -/
  name : String
  /-- The second argument of a CSS call. -/
  fallback : Option String
  /-- From the start of the call or the opening brace to its end. -/
  range : Range
deriving DecidableEq, Repr

/-! ## CSS calls -/

/-- The start of a CSS call. -/
def callStart : List Char := ['v', 'a', 'r', '(']

/-- Whether a character may stand in the name of a CSS variable. -/
def isVariableChar (c : Char) : Bool :=
  c.isAlphanum || c = '_' || c = '-'

/-- The rest after the start of a call and the blanks that follow. -/
def afterCallStart? (cs : List Char) : Option (List Char) :=
  (Text.dropStart? callStart cs).map Text.trimStart

/-- The variable at the start of a call, and what follows it and its blanks. -/
def callHead? (cs : List Char) : Option (List Char × List Char) :=
  match afterCallStart? cs with
  | some ('-' :: '-' :: rest) =>
    let name := rest.takeWhile isVariableChar
    if name.isEmpty then none
    else some ('-' :: '-' :: name, Text.trimStart (rest.dropWhile isVariableChar))
  | _ => none

/-- The text up to the parenthesis that closes a call, and what follows it. Inside, `depth` more
parentheses are open. -/
def toClosing? : (depth : Nat) → List Char → Option (List Char × List Char)
  | _, [] => none
  | depth, c :: cs =>
    if c = ')' then
      match depth with
      | 0 => some ([], cs)
      | depth + 1 => (toClosing? depth cs).map fun (inside, rest) => (c :: inside, rest)
    else
      (toClosing? (if c = '(' then depth + 1 else depth) cs).map fun (inside, rest) =>
        (c :: inside, rest)

/-- The fallback of a call, after its variable, and what follows the call. -/
def callRest? (cs : List Char) : Option (Option String × List Char) :=
  match cs with
  | ')' :: rest => some (none, rest)
  | ',' :: args =>
    (toClosing? 0 args).map fun (inside, rest) =>
      let fallback := Text.trimChars inside
      (if fallback.isEmpty then none else some (String.ofList fallback), rest)
  | _ => none

/-! ## Aliases -/

/-- Whether a character may stand in an alias. -/
def isAliasChar (c : Char) : Bool :=
  !(['{', '}', '"', '\'', ':', ','].contains c || Text.isBlank c)

/-- The alias at the front of a text and what follows it. -/
def braced? (cs : List Char) : Option (String × List Char) :=
  match cs with
  | '{' :: body =>
    let name := body.takeWhile isAliasChar
    match body.dropWhile isAliasChar with
    | '}' :: after => if name.isEmpty then none else some (String.ofList name, after)
    | _ => none
  | _ => none

/-! ## Usages -/

/-- The range on a line from a column on: all of `cs` but for `after`. -/
def rangeUpTo (line column : Nat) (cs after : List Char) : Range :=
  .onLine line column (column + (Text.units cs - Text.units after))

/-- The usage of a call at the front of `cs`, after its variable; none if the call is not closed. -/
def callUsage? (line column : Nat) (cs name rest : List Char) : Option Usage :=
  (callRest? rest).map fun (fallback, after) =>
    ⟨.cssVariable, String.ofList name, fallback, rangeUpTo line column cs after⟩

/-- The usage of an alias at the front of `cs`. -/
def bracedUsage? (line column : Nat) (cs : List Char) : Option Usage :=
  (braced? cs).map fun (name, after) =>
    ⟨.reference, name, none, rangeUpTo line column cs after⟩

/-- The usages in a line from a column on. No usage starts at the first `skip` characters: they
belong to a call up to the end of its variable. -/
def usagesFrom (line : Nat) : (column skip : Nat) → List Char → List Usage
  | _, _, [] => []
  | column, skip + 1, c :: cs => usagesFrom line (column + Text.unitWidth c) skip cs
  | column, 0, c :: cs =>
    match callHead? (c :: cs) with
    | some (name, rest) =>
      (callUsage? line column (c :: cs) name rest).toList
        ++ usagesFrom line (column + Text.unitWidth c) (cs.length - rest.length) cs
    | none =>
      (bracedUsage? line column (c :: cs)).toList
        ++ usagesFrom line (column + Text.unitWidth c) 0 cs

/-- The usages in lines, the first of which has the number `line`. -/
def usagesInLines : (line : Nat) → List (List Char) → List Usage
  | _, [] => []
  | line, cs :: rest => usagesFrom line 0 0 cs ++ usagesInLines (line + 1) rest

/-- The usages in a text, in order. -/
def usages (text : String) : List Usage :=
  usagesInLines 0 (Text.lines text.toList)

/-- The first usage around a position. -/
def usageAt? (text : String) (p : Position) : Option Usage :=
  (usages text).find? fun u => u.range.start.line = p.line && u.range.contains p

/-! ## Completion -/

/-- What is being typed. -/
structure Typing where
  kind : UsageKind
  typed : String
  range : Range
deriving DecidableEq, Repr

/-- Whether a character may stand in an alias that is being typed. -/
def isTypedAliasChar (c : Char) : Bool :=
  c.isAlphanum || ['_', '$', '@', '.', '-'].contains c

/-- A text that is the start of a CSS call up to somewhere in the variable: what is typed of it. -/
def typedVariable? (cs : List Char) : Option (List Char) :=
  match afterCallStart? cs with
  | some ('-' :: '-' :: name) => if name.all isVariableChar then some ('-' :: '-' :: name) else none
  | _ => none

/-- A text that is the start of an alias: what is typed of it. -/
def typedAlias? (cs : List Char) : Option (List Char) :=
  match cs with
  | '{' :: name => if name.all isTypedAliasChar then some name else none
  | _ => none

/-- What the first ending of a text with a start of some kind has typed. -/
def typedIn (start? : List Char → Option (List Char)) : List Char → Option (List Char)
  | [] => none
  | c :: cs => (start? (c :: cs)).or (typedIn start? cs)

/-- What is being typed at the end of a part of a line. -/
def typingAtEnd? (line : Nat) (before : List Char) : Option Typing :=
  let stop := Text.units before
  let typing (kind : UsageKind) (typed : List Char) : Typing :=
    ⟨kind, String.ofList typed, .onLine line (stop - Text.units typed) stop⟩
  match typedIn typedVariable? before with
  | some typed => some (typing .cssVariable typed)
  | none => (typedIn typedAlias? before).map (typing .reference)

/-- What is being typed before a position. -/
def completion? (text : String) (p : Position) : Option Typing :=
  match (Text.lines text.toList)[p.line]? with
  | none => none
  | some line => typingAtEnd? p.line (line.take (Text.charsBefore p.character line))

end DesignTokens.Editor
