import DesignTokens.Editor.Session
import DesignTokens.Json.Reader

/-!
# Framed messages

On a stream, a message is a header with its length in bytes, a blank line, and its JSON text.
-/

namespace DesignTokens.Editor

/-- The length that a line of a header gives, if it gives one. -/
def contentLength? (line : String) : Option Nat :=
  match Text.split ':' line with
  | [name, value] =>
    if String.ofList (Text.lower (Text.trim name).toList) = "content-length" then
      (Text.trim value).toNat?
    else none
  | _ => none

/-- A message with its header. -/
def framed (v : Json.Value) : String :=
  let text := v.compact
  "Content-Length: " ++ Nat.repr text.utf8ByteSize ++ "\r\n\r\n" ++ text

/-- The message in a JSON value. -/
def Message.ofJson (v : Json.Value) : Message :=
  ⟨v.get? "id", (v.stringAt? "method").getD "", v.get? "params"⟩

/-- The response to a text that is no JSON. -/
def parseRefusal : Json.Value :=
  .ofFields
    [("jsonrpc", .string "2.0"), ("id", .null),
     ("error", .ofFields [("code", .number (.int (-32700))), ("message", .string "Parse error")])]

/-- A message that the server sends on its own. -/
def Outgoing.toJson (o : Outgoing) : Json.Value :=
  .ofFields [("jsonrpc", .string "2.0"), ("method", .string o.method), ("params", o.params)]

/-- All that is sent after a message, in order. -/
def Reply.messages (r : Reply) : List Json.Value :=
  r.outgoing.map Outgoing.toJson ++ r.response.toList

/-- Handles the text of a message: the session after it and what is sent. None after the exit. -/
def Session.handleText (s : Session) (fs : FileSystem) (text : String) :
    Option (Session × List Json.Value) :=
  match Json.Value.parse text with
  | .error _ => some (s, [parseRefusal])
  | .ok v => (s.handle fs (.ofJson v)).map fun (s', reply) => (s', reply.messages)

end DesignTokens.Editor
