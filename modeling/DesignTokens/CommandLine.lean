import DesignTokens.CommandLine.LogFilter
import DesignTokens.CommandLine.Similarity

/-!
# The command line

The program serves an editor over its standard input and output. Its arguments are read from left to
right; the first that is wrong, or that asks for help or the version, ends the reading.
-/

namespace DesignTokens

namespace CommandLine

/-- The name of the program. -/
def programName : String := "design-tokens-language-server"

/-- The version of the program. -/
def programVersion : String := "0.1.0"

/-- An option of the program. -/
inductive Flag where
  | stdio
  | logLevel
  | help
  | version
deriving DecidableEq, Repr

namespace Flag

/-- The name of an option. -/
def name : Flag → String
  | .stdio => "stdio"
  | .logLevel => "log-level"
  | .help => "help"
  | .version => "version"

/-- An option as it is shown. -/
def text (f : Flag) : String :=
  match f with
  | .logLevel => "--log-level <LOG_LEVEL>"
  | f => "--" ++ f.name

/-- All options. -/
def all : List Flag := [.stdio, .logLevel, .help, .version]

/-- The option with a name. -/
def ofName? (s : String) : Option Flag :=
  all.find? fun f => f.name = s

/-- Whether an option is one of the program's own. -/
def isOwn (f : Flag) : Bool :=
  f = .stdio || f = .logLevel

end Flag

/-- What is wrong with the arguments. -/
inductive UsageError where
  /-- An argument that is none of the program's; maybe there is a similar one, and some were used
  before. -/
  | unexpectedArgument (arg : String) (similar : Option Flag) (used : List Flag)
  | repeated (f : Flag)
  | missingValue
  /-- A value for an option that takes none; some were used before. -/
  | unexpectedValue (value : String) (f : Flag) (used : List Flag)
deriving DecidableEq, Repr

/-- The options of the program as one choice. -/
def ownChoice : String :=
  "<" ++ Flag.stdio.text ++ "|" ++ Flag.logLevel.text ++ ">"

/-- How to use the program, with options that were used; `grouped` if they stand for all of the
program's own. -/
def usageLine (used : List Flag) (grouped : Bool) : String :=
  let shown := if grouped then used.filter fun f => !f.isOwn else used
  let parts := shown.eraseDups.map Flag.text ++ if grouped then [ownChoice] else []
  let parts := if parts.isEmpty then ["[OPTIONS]"] else parts
  "Usage: " ++ programName ++ " " ++ Text.join " " parts

/-- What is said about an error, without the usage. -/
def UsageError.summary : UsageError → String
  | .unexpectedArgument arg similar _ =>
    "unexpected argument '" ++ arg ++ "' found" ++
      match similar with
      | some f => "\n\n  tip: a similar argument exists: '--" ++ f.name ++ "'"
      | none => ""
  | .repeated f => "the argument '" ++ f.text ++ "' cannot be used multiple times"
  | .missingValue =>
    "a value is required for '" ++ Flag.logLevel.text ++ "' but none was supplied"
  | .unexpectedValue value f _ =>
    "unexpected value '" ++ value ++ "' for '" ++ f.text ++ "' found; no more were expected"

/-- The usage that is shown for an error. -/
def UsageError.usage : UsageError → Option String
  | .unexpectedArgument _ similar used =>
    let used := used ++ similar.toList
    some (usageLine used (used.any Flag.isOwn))
  | .repeated _ => some (usageLine [] false)
  | .missingValue => none
  | .unexpectedValue _ f used => some (usageLine (used ++ [f]) (used.any Flag.isOwn))

/-- The report of an error. -/
def UsageError.report (e : UsageError) : String :=
  let usage := match e.usage with
    | some line => "\n\n" ++ line
    | none => ""
  "error: " ++ e.summary ++ usage ++ "\n\nFor more information, try '--help'.\n"

/-! ## Reading arguments -/

/-- What the arguments ask for. -/
inductive Request where
  | serve (logLevel : Option String)
  | help (long : Bool)
  | version
deriving DecidableEq, Repr

/-- Why the reading of arguments ends early. -/
inductive Stop where
  | error (e : UsageError)
  | request (r : Request)
deriving DecidableEq, Repr

/-- The log level option while it waits. -/
inductive Waiting where
  | no
  | forValue
  /-- For the next option, with its value. -/
  | forNext (value : String)
deriving DecidableEq, Repr

/-- The arguments read so far. -/
structure Reading where
  /-- The options that were given, in order. -/
  given : List Flag := []
  logLevel : Option String := none
  waiting : Waiting := .no
  /-- Whether only plain arguments follow. -/
  onlyPlain : Bool := false

namespace Reading

/-- Takes an option; it may be given once. -/
def give (r : Reading) (f : Flag) : Except Stop Reading :=
  if f ∈ r.given then .error (.error (.repeated f))
  else .ok { r with given := r.given ++ [f] }

/-- Takes the log level option with a value. -/
def giveLevel (r : Reading) (value : String) : Except Stop Reading :=
  (r.give .logLevel).map fun r => { r with logLevel := some value }

/-- Settles the option that waits. -/
def settle (r : Reading) : Except Stop Reading :=
  match r.waiting with
  | .no => .ok r
  | .forValue => .error (.error .missingValue)
  | .forNext value => giveLevel { r with waiting := .no } value

/-- Refuses an argument. -/
def refuse (arg : String) : Except Stop Reading :=
  .error (.error (.unexpectedArgument arg none []))

/-- Reads an option without a value attached. -/
def flag (r : Reading) (f : Flag) : Except Stop Reading := do
  let r ← r.settle
  match f with
  | .stdio => r.give .stdio
  | .logLevel => return { r with waiting := .forValue }
  | .help => throw (.request (.help true))
  | .version => throw (.request .version)

/-- Reads an option with a value attached. -/
def flagWith (r : Reading) (f : Flag) (value : String) : Except Stop Reading :=
  if f = .logLevel then r.settle.bind fun r => r.giveLevel value
  else .error (.error (.unexpectedValue value f r.given))

/-- The options that were given, with the one that waits if it can be settled. -/
def settledGiven (r : Reading) : List Flag :=
  match r.settle with
  | .ok r' => r'.given
  | .error _ => r.given

/-- Reads an argument that starts with two hyphens, after them. -/
def long (r : Reading) (cs : List Char) : Except Stop Reading :=
  let name := String.ofList (cs.takeWhile (· ≠ '='))
  match Flag.ofName? name with
  | none =>
    let similar := (mostSimilar? name (Flag.all.map Flag.name)).bind Flag.ofName?
    .error (.error (.unexpectedArgument ("--" ++ name) similar r.settledGiven))
  | some f =>
    match cs.dropWhile (· ≠ '=') with
    | [] => r.flag f
    | _ :: value => r.flagWith f (String.ofList value)

/-- Reads an argument that starts with one hyphen, after it. -/
def short (r : Reading) (c : Char) : Except Stop Reading :=
  if c = 'h' then r.settle.bind fun _ => .error (.request (.help false))
  else if c = 'V' then r.settle.bind fun _ => .error (.request .version)
  else refuse (String.ofList ['-', c])

/-- Reads any other argument: the value that an option waits for. -/
def plain (r : Reading) (arg : String) : Except Stop Reading :=
  if r.waiting = .forValue then .ok { r with waiting := .forNext arg } else refuse arg

/-- Reads an argument. -/
def step (r : Reading) (arg : String) : Except Stop Reading :=
  if r.onlyPlain then refuse arg
  else
    match arg.toList with
    | ['-', '-'] => .ok { r with onlyPlain := true }
    | '-' :: '-' :: cs => r.long cs
    | '-' :: c :: _ => r.short c
    | _ => r.plain arg

end Reading

/-- Reads all arguments. -/
def parse (args : List String) : Except UsageError Request :=
  match args.foldlM Reading.step {} >>= Reading.settle with
  | .ok r => .ok (.serve r.logLevel)
  | .error (.request r) => .ok r
  | .error (.error e) => .error e

/-! ## Texts -/

/-- What the program is, in a line. -/
def about : String := "Language server for DTCG design tokens"

/-- What the program is. -/
def longAbout : String :=
  Text.join "\n"
    ["Design Tokens Language Server",
     "",
     "Hover, go-to-definition, completion and diagnostics for design tokens",
     "referenced from CSS, HTML and JS, and for aliases inside token files.",
     "",
     "Tokens files are configured by the client under `designTokensLanguageServer`",
     "(or in package.json); without configuration, tokens.json, *.tokens.json and",
     "design-tokens.json are discovered under the workspace root.",
     "",
     "LOGGING:",
     "  Logs go to stderr. Set DTLS_LOG (or RUST_LOG) to a tracing filter,",
     "  e.g. DTLS_LOG=dtls=debug"]

/-- What an option does. -/
def flagHelp (long : Bool) : Flag → String
  | .stdio =>
    "Communicate over stdin/stdout (the only transport; accepted for client compatibility)"
  | .logLevel => "Log filter, overrides RUST_LOG"
  | .help => if long then "Print help (see a summary with '-h')" else
    "Print help (see more with '--help')"
  | .version => "Print version"

/-- An option with its short form before it. -/
def flagHead : Flag → String
  | .help => "  -h, --help"
  | .version => "  -V, --version"
  | f => "      " ++ f.text

/-- What is said of the environment variable of an option. -/
def flagEnvironment (level : Option String) : Flag → Option String
  | .logLevel => some ("[env: DTLS_LOG=" ++ level.getD "" ++ "]")
  | _ => none

/-- A text filled up with blanks. -/
def padTo (width : Nat) (s : String) : String :=
  s ++ String.ofList (List.replicate (width - s.length) ' ')

/-- The column of the short descriptions. -/
def helpColumn : Nat := 31

/-- A line of the short help. -/
def shortLine (level : Option String) (f : Flag) : String :=
  let rest := match flagEnvironment level f with
    | some e => " " ++ e
    | none => ""
  padTo helpColumn (flagHead f) ++ flagHelp false f ++ rest

/-- An entry of the long help. -/
def longEntry (level : Option String) (f : Flag) : String :=
  let indent := "          "
  let rest := match flagEnvironment level f with
    | some e => "\n" ++ indent ++ "\n" ++ indent ++ e
    | none => ""
  flagHead f ++ "\n" ++ indent ++ flagHelp true f ++ rest

/-- The help; `level` is the log filter of the environment. -/
def helpText (long : Bool) (level : Option String) : String :=
  let body := if long then Text.join "\n\n" (Flag.all.map (longEntry level))
    else Text.join "\n" (Flag.all.map (shortLine level))
  (if long then longAbout else about) ++ "\n\n" ++ usageLine [] false ++ "\n\nOptions:\n" ++ body
    ++ "\n"

/-- The report of a log filter that is refused. -/
def filterReport (filter : String) (fault : FilterFault) : String :=
  let causes := match fault.causes with
    | [cause] => "    " ++ cause ++ "\n"
    | causes =>
      String.join (causes.zipIdx.map fun (cause, i) =>
        "    " ++ Nat.repr i ++ ": " ++ cause ++ "\n")
  "Error: invalid log filter '" ++ filter ++ "'\n\nCaused by:\n" ++ causes

/-! ## Outcome -/

/-- What becomes of a call of the program. -/
inductive Outcome where
  /-- It serves. -/
  | serve
  /-- It ends with a code, after output and complaints. -/
  | finish (code : Nat) (output complaint : String)
deriving DecidableEq, Repr

/-- What becomes of a call with some arguments; `level` is the log filter of the environment. -/
def outcome (args : List String) (level : Option String) : Outcome :=
  match parse args with
  | .error e => .finish 2 "" e.report
  | .ok .version => .finish 0 (programName ++ " " ++ programVersion ++ "\n") ""
  | .ok (.help long) => .finish 0 (helpText long level) ""
  | .ok (.serve given) =>
    match given.or level with
    | none => .serve
    | some filter =>
      match checkFilter filter with
      | .ok () => .serve
      | .error fault => .finish 1 "" (filterReport filter fault)

end CommandLine

end DesignTokens
