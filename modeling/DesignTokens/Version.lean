import DesignTokens.Json.Value
import DesignTokens.Text.Blank

/-!
# Versions of the token format

A token file follows the draft or the release of October 2025. It may say so by the address of its
schema; otherwise the caller's assumption counts, and last the keys that only the release knows.
-/

namespace DesignTokens

/-- A version of the token format. -/
inductive Version where
  | unknown
  | draft
  | v2025_10
deriving DecidableEq, Repr, Inhabited

/-- Why a schema was not recognised. -/
inductive SchemaError where
  | unknownUrl (url : String)
  | unknownName (name : String)
deriving DecidableEq, Repr

/-- The wording of a schema error. -/
def SchemaError.message : SchemaError → String
  | .unknownUrl url => "Invalid schema: unrecognized schema URL '" ++ url ++ "'"
  | .unknownName name => "Invalid schema: unrecognized schema version '" ++ name ++ "'"

namespace Version

/-- The name of a version. -/
def name : Version → String
  | .unknown => "unknown"
  | .draft => "draft"
  | .v2025_10 => "v2025_10"

/-- The address of a version's schema. -/
def url : Version → String
  | .unknown => ""
  | .draft => "https://www.designtokens.org/schemas/draft.json"
  | .v2025_10 => "https://www.designtokens.org/schemas/2025.10.json"

/-- The version of a schema address, blanks around it aside. -/
def ofUrl (text : String) : Except SchemaError Version :=
  let address := Text.trim text
  if address = draft.url then .ok draft
  else if address = v2025_10.url then .ok v2025_10
  else .error (.unknownUrl address)

/-- The version of a name. -/
def ofName (text : String) : Except SchemaError Version :=
  if text = "draft" then .ok draft
  else if text = "v2025_10" ∨ text = "2025.10" then .ok v2025_10
  else if text = "unknown" then .ok unknown
  else .error (.unknownName text)

/-- Whether an object has keys that only the release of October 2025 knows. -/
def marksRelease (fields : Json.Fields) : Bool :=
  fields.contains "$ref" || fields.contains "$extends" || fields.contains "resolutionOrder" ||
    (fields.contains "colorSpace" && fields.contains "components")

mutual

/-- Whether some object in a value has keys that only the release of October 2025 knows. -/
def usesRelease : Json.Value → Bool
  | .object fields => marksRelease fields || anyFieldUses fields
  | .array items => anyItemUses items
  | _ => false

/-- Whether some item uses the release. -/
def anyItemUses : List Json.Value → Bool
  | [] => false
  | v :: vs => usesRelease v || anyItemUses vs

/-- Whether the value of some field uses the release. -/
def anyFieldUses : List (String × Json.Value) → Bool
  | [] => false
  | (_, v) :: fs => usesRelease v || anyFieldUses fs

end

/-- The version of a document: the one its schema address names, else the assumed one, else the
release if the document uses it, else the draft. -/
def detect (doc : Json.Value) (assumed : Option Version) : Version :=
  match (doc.stringAt? "$schema").bind fun address => (ofUrl address).toOption with
  | some v => v
  | none =>
    match assumed with
    | some draft => draft
    | some v2025_10 => v2025_10
    | _ => if usesRelease doc then v2025_10 else draft

/-- A known version, else the one to fall back on. -/
def orElse (v fallback : Version) : Version :=
  if v = unknown then fallback else v

end Version

end DesignTokens
