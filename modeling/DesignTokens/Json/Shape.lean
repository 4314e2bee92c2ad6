import DesignTokens.Json.Writer
import DesignTokens.Text.Quoted

/-!
# Shapes of JSON values

Settings and requests arrive as JSON values of a known shape. A shape reads such a value, or tells
how the value differs from it.
-/

namespace DesignTokens.Json

/-- How a value differs from a shape. -/
inductive ShapeError where
  /-- A value of another kind. -/
  | wrongKind (found expected : String)
  /-- A value of the right kind that is not allowed. -/
  | wrongValue (found expected : String)
  /-- A list of the wrong length. -/
  | wrongLength (length : Nat) (expected : String)
  | missingField (name : String)
  | unknownVariant (name : String) (expected : String)
  /-- A value that fits none of the alternatives of a type. -/
  | noAlternative (type : String)
  /-- A value that is refused for a reason of its own. -/
  | refused (reason : String)
deriving DecidableEq, Repr

/-- The wording of a shape error. -/
def ShapeError.message : ShapeError → String
  | .wrongKind found expected => "invalid type: " ++ found ++ ", expected " ++ expected
  | .wrongValue found expected => "invalid value: " ++ found ++ ", expected " ++ expected
  | .wrongLength length expected =>
    "invalid length " ++ Nat.repr length ++ ", expected " ++ expected
  | .missingField name => "missing field `" ++ name ++ "`"
  | .unknownVariant name expected => "unknown variant `" ++ name ++ "`, expected " ++ expected
  | .noAlternative type => "data did not match any variant of untagged enum " ++ type
  | .refused reason => reason

/-- A value as a report names it. -/
def Value.found : Value → String
  | .null => "null"
  | .bool b => "boolean `" ++ (if b then "true" else "false") ++ "`"
  | .number (.int n) => "integer `" ++ (Number.int n).text ++ "`"
  | .number (.double d) => "floating point `" ++ (Number.double d).text ++ "`"
  | .string s => "string " ++ Text.quoted s
  | .array _ => "sequence"
  | .object _ => "map"

/-- A reader of values of one shape. -/
abbrev Shape (α : Type) := Value → Except ShapeError α

namespace Shape

/-- The error of a value of another kind. -/
def mismatch {α : Type} (expected : String) (v : Value) : Except ShapeError α :=
  .error (.wrongKind v.found expected)

/-- Any value. -/
def any : Shape Value := .ok

/-- A string. -/
def text : Shape String
  | .string s => .ok s
  | v => mismatch "a string" v

/-- The items of a list, one by one. -/
def items {α : Type} (item : Shape α) : List Value → Except ShapeError (List α)
  | [] => .ok []
  | v :: vs =>
    match item v with
    | .error e => .error e
    | .ok a => (items item vs).map (a :: ·)

/-- A list of values of one shape. -/
def list {α : Type} (item : Shape α) : Shape (List α)
  | .array vs => items item vs
  | v => mismatch "a sequence" v

/-- A value, or null for none. -/
def optional {α : Type} (shape : Shape α) : Shape (Option α)
  | .null => .ok none
  | v => (shape v).map some

/-- An integer between two bounds, of a type with a name. -/
def integer (type : String) (low high : Int) : Shape Int
  | .number (.int n) =>
    if low ≤ n ∧ n ≤ high then .ok n
    else .error (.wrongValue (Value.number (.int n)).found type)
  | v => mismatch type v

/-- An unsigned integer of 32 bits. -/
def unsigned : Shape Nat := fun v =>
  (integer "u32" 0 (Int.pow 2 32 - 1) v).map Int.toNat

/-- A signed integer of 32 bits. -/
def signed : Shape Int :=
  integer "i32" (-(Int.pow 2 31)) (Int.pow 2 31 - 1)

/-- The fields of a record with a name. -/
def record (name : String) : Shape Fields
  | .object fields => .ok fields
  | v => mismatch ("struct " ++ name) v

/-- A field of a record, if it is there. -/
def field? {α : Type} (fields : Fields) (name : String) (shape : Shape α) :
    Except ShapeError (Option α) :=
  match fields.get? name with
  | none => .ok none
  | some v => (shape v).map some

/-- A field that has to be there. -/
def required {α : Type} (name : String) : Option α → Except ShapeError α
  | some a => .ok a
  | none => .error (.missingField name)

end Shape

end DesignTokens.Json
