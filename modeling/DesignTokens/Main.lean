import DesignTokens.CommandLine
import DesignTokens.Disk
import DesignTokens.Editor.Frame

/-!
# The program

Reads its arguments and then messages on standard input until the session ends. Files are those that
the disk had at the last message at which token files or their settings are read.
-/

namespace DesignTokens

/-- Reads the header of a message: its length, or none at the end of the input. -/
partial def readHeader (input : IO.FS.Stream) (length : Option Nat) : IO (Option Nat) := do
  let line ← input.getLine
  if line.isEmpty then return none
  else if Text.allBlank line then
    match length with
    | some n => return some n
    | none => readHeader input none
  else readHeader input ((Editor.contentLength? line).or length)

/-- Reads so many bytes, or fewer at the end of the input. -/
partial def readBytes (input : IO.FS.Stream) (count : Nat) (done : ByteArray) : IO ByteArray := do
  if count ≤ done.size then return done
  let more ← input.read (count - done.size).toUSize
  if more.isEmpty then return done
  readBytes input count (done ++ more)

/-- The messages at which token files or their settings are read. -/
def readingMethods : List String :=
  ["initialize", "initialized", "workspace/didChangeConfiguration"]

/-- Whether files are read at the message with a text. -/
def readsFiles (text : String) : Bool :=
  (Json.Value.parse text).toOption.any fun v =>
    readingMethods.contains (Editor.Message.ofJson v).method

/-- The files for a message. A message may bring another root or other settings, and then the files
are those that these lead to. -/
def filesFor (s : Editor.Session) (text : String) : IO FileSystem := do
  let before := s.server.workspace
  let fs ← Disk.snapshot before
  match s.handleText fs text with
  | none => return fs
  | some (s', _) =>
    let after := s'.server.workspace
    if before.root = after.root ∧ before.settings = after.settings then return fs
    else Disk.snapshot after

/-- Serves one message after the other. -/
partial def serve (input output : IO.FS.Stream) (fs : FileSystem) (s : Editor.Session) :
    IO Unit := do
  match ← readHeader input none with
  | none => return
  | some count =>
    let bytes ← readBytes input count .empty
    let text := (String.fromUTF8? bytes).getD ""
    let fs ← if readsFiles text then filesFor s text else pure fs
    match s.handleText fs text with
    | none => return
    | some (s', messages) =>
      for m in messages do
        output.putStr (Editor.framed m)
      output.flush
      if s'.phase = .exited then return
      serve input output fs s'

end DesignTokens

/-- Runs the program. -/
def main (args : List String) : IO UInt32 := do
  match DesignTokens.CommandLine.outcome args (← IO.getEnv "DTLS_LOG") with
  | .serve =>
    DesignTokens.serve (← IO.getStdin) (← IO.getStdout) .empty {}
    return 0
  | .finish code output complaint =>
    (← IO.getStdout).putStr output
    (← IO.getStderr).putStr complaint
    return code.toUInt32
