import DesignTokens.Discovery.Glob
import DesignTokens.Text.Blank
import DesignTokens.Text.Edit

/-!
# Ignore files

An ignore file has a pattern on each line. The last pattern that matches a path decides: it is
ignored, or kept if the pattern starts with a bang. A pattern with a slash at its end is for
directories only, one with a slash elsewhere is for the whole path, and any other for the name in
any directory.
-/

namespace DesignTokens.Discovery

/-- A line of an ignore file. -/
structure IgnoreRule where
  pattern : Glob
  /-- Whether what matches is kept. -/
  keeps : Bool
  onlyDirectories : Bool
deriving Repr

/-- What rules say about a path. -/
inductive Verdict where
  | silent
  | ignored
  | kept
deriving DecidableEq, Repr

/-- The first verdict unless it is silent. -/
def Verdict.orElse (a b : Verdict) : Verdict :=
  if a = .silent then b else a

/-- The text of a pattern as it is matched: the whole path if it has a slash, else a name in any
directory; two stars at the end stand for what is in a directory. -/
def fullPattern (anchored : Bool) (body : List Char) : List Char :=
  let whole :=
    if anchored || body.contains '/' || body = ['*', '*'] then body else ['*', '*', '/'] ++ body
  if ['*', '*', '/'].isPrefixOf whole.reverse then whole ++ ['/', '*'] else whole

/-- A rule from the text of a line after its bang and its slash. -/
def ruleOfBody (keeps anchored : Bool) (body : List Char) : Option IgnoreRule :=
  let (onlyDirectories, body) :=
    match body.reverse with
    | '/' :: '\\' :: rest => (true, rest.reverse)
    | '/' :: rest => (true, rest.reverse)
    | _ => (false, body)
  (Glob.parse? (String.ofList (fullPattern anchored body))).map fun g =>
    ⟨g, keeps, onlyDirectories⟩

/-- The rule of a line; comments, blank lines and faulty patterns have none. -/
def IgnoreRule.ofLine? (line : List Char) : Option IgnoreRule :=
  if line.head? = some '#' then none
  else
    let line := if [' ', '\\'].isPrefixOf line.reverse then line else Text.trimEnd line
    match line with
    | [] => none
    | '\\' :: '!' :: rest => ruleOfBody false false ('!' :: rest)
    | '\\' :: '#' :: rest => ruleOfBody false false ('#' :: rest)
    | '!' :: '/' :: rest => ruleOfBody true true rest
    | '!' :: rest => ruleOfBody true false rest
    | '/' :: rest => ruleOfBody false true rest
    | _ => ruleOfBody false false line

/-- A line without the carriage return at its end. -/
def dropReturn (line : List Char) : List Char :=
  if line.getLast? = some '\r' then line.dropLast else line

/-- The rules of an ignore file. -/
def ignoreRules (text : String) : List IgnoreRule :=
  let body := text.toList.dropWhile fun c => c.toNat = 0xFEFF
  ((Text.splitChars '\n' body).map dropReturn).filterMap IgnoreRule.ofLine?

/-- What rules say about a path: the last rule that matches decides. -/
def verdict (rules : List IgnoreRule) (path : String) (isDirectory : Bool) : Verdict :=
  match rules.reverse.find? fun r =>
      (!r.onlyDirectories || isDirectory) && r.pattern.accepts path with
  | some r => if r.keeps then .kept else .ignored
  | none => .silent

end DesignTokens.Discovery
