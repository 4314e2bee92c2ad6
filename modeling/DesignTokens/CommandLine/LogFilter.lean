import DesignTokens.Text.Blank
import DesignTokens.Text.Edit

/-!
# Log filters

A log filter is a list of directives with commas between them. A directive is a level, a target, or
a target or span with a level after an equals sign.
-/

namespace DesignTokens.CommandLine

/-- Why a log filter is refused. -/
inductive FilterFault where
  /-- A directive that is none. -/
  | badDirective
  /-- A level that is none. -/
  | badLevel
deriving DecidableEq, Repr

/-- The wording of a fault, followed by the wordings of what caused it. -/
def FilterFault.causes : FilterFault → List String
  | .badDirective => ["invalid filter directive"]
  | .badLevel =>
    let text := "error parsing level filter: expected one of \"off\", \"error\", \"warn\", "
      ++ "\"info\", \"debug\", \"trace\", or a number 0-5"
    [text, text]

/-- The names of levels. -/
def levelNames : List String :=
  ["off", "error", "warn", "info", "debug", "trace"]

/-- Whether a text is a number from zero to five, in any number of digits. -/
def isLevelNumber (cs : List Char) : Bool :=
  let digits := if cs.head? = some '+' then cs.drop 1 else cs
  !digits.isEmpty && digits.all Char.isDigit &&
    match digits.dropWhile (· = '0') with
    | [] => true
    | [d] => d ≤ '5'
    | _ => false

/-- Whether a text is a level; a missing one counts. -/
def isLevel (cs : List Char) : Bool :=
  cs.isEmpty || isLevelNumber cs || levelNames.contains (String.ofList (cs.map Char.toLower))

/-- Where the reading of a directive stands. -/
inductive DirectiveState where
  | start
  | target
  | span
  /-- Inside braces, with the number of characters of the field so far. -/
  | field (length : Nat)
  | fieldsEnd
  | spanEnd
  | level
deriving DecidableEq, Repr

/-- Whether a directive may start with a character. -/
def startsDirective (c : Char) : Bool :=
  c.isAlphanum || 0x80 ≤ c.toNat || c = '-' || c = ':' || c = '_'

/-- Reads one character of a directive. -/
def DirectiveState.step : DirectiveState → Char → Option DirectiveState
  | .start, c => if c = '[' then some .span else if startsDirective c then some .target else none
  | .target, c => some (if c = '=' then .level else if c = '[' then .span else .target)
  | .span, c => some (if c = ']' then .spanEnd else if c = '{' then .field 0 else .span)
  | .field n, c =>
    if c = '}' then if n = 0 then none else some .fieldsEnd else some (.field (n + 1))
  | .fieldsEnd, c => if c = ']' then some .spanEnd else none
  | .spanEnd, c => if c = '=' then some .level else none
  | .level, _ => some .level

/-- The number of characters up to the equals sign before a level. -/
def levelStart (s : DirectiveState) : List Char → Nat
  | [] => 0
  | c :: cs =>
    match s.step c with
    | some .level => 1
    | some s' => 1 + levelStart s' cs
    | none => 0

/-- Checks a directive. The level is all that follows, in the directive as written, as many
characters as there are up to the equals sign without the blanks around it. -/
def checkDirective (directive : List Char) : Except FilterFault Unit :=
  let body := Text.trimChars directive
  match body.foldlM DirectiveState.step DirectiveState.start with
  | some .level =>
    if isLevel (directive.drop (levelStart .start body)) then .ok () else .error .badLevel
  | some .target => .ok ()
  | some .spanEnd => .ok ()
  | _ => .error .badDirective

/-- Checks a log filter. -/
def checkFilter (filter : String) : Except FilterFault Unit :=
  ((Text.splitChars ',' filter.toList).filter fun d => !d.isEmpty).forM checkDirective

end DesignTokens.CommandLine
