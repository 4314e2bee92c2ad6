import DesignTokens.Decimal.Double

/-!
# JSON values

Values as read from a document. An object keeps its fields sorted by key, and each key once;
`Fields.insert` keeps that order, a later value replacing an earlier one. Strings are compared by
code points, which is also the order of their UTF-8 bytes.
-/

namespace DesignTokens.Json

/-- A number: an integer of at most 64 bits, or a double. -/
inductive Number where
  /-- An integer between `-2 ^ 63` and `2 ^ 64 - 1`. -/
  | int (n : Int)
  /-- Any other number. -/
  | double (d : Decimal.Double)
deriving DecidableEq, Repr

/-- A JSON value. -/
inductive Value where
  | null
  | bool (b : Bool)
  | number (n : Number)
  | string (s : String)
  | array (items : List Value)
  /-- Fields in increasing order of their keys. -/
  | object (fields : List (String × Value))
deriving Repr, Inhabited

/-- The fields of an object. -/
abbrev Fields := List (String × Value)

namespace Fields

/-- Puts a value under a key, replacing the value that is there. -/
def insert (key : String) (value : Value) : Fields → Fields
  | [] => [(key, value)]
  | (k, v) :: rest =>
    if key = k then (key, value) :: rest
    else if key < k then (key, value) :: (k, v) :: rest
    else (k, v) :: insert key value rest

/-- The value under a key. -/
def get? (key : String) : Fields → Option Value
  | [] => none
  | (k, v) :: rest => if k = key then some v else get? key rest

/-- Whether there is a value under a key. -/
def contains (key : String) (fields : Fields) : Bool :=
  (get? key fields).isSome

/-- The fields put one after the other into an empty object. -/
def ofList (entries : List (String × Value)) : Fields :=
  entries.foldl (fun fields e => insert e.1 e.2 fields) []

end Fields

namespace Value

/-- The object with these fields; of fields with one key the last counts. -/
def ofFields (entries : List (String × Value)) : Value :=
  .object (Fields.ofList entries)

/-- The field of an object under a key. -/
def get? (key : String) : Value → Option Value
  | .object fields => Fields.get? key fields
  | _ => none

/-- The text of a string. -/
def string? : Value → Option String
  | .string s => some s
  | _ => none

/-- The string under a key of an object. -/
def stringAt? (key : String) (v : Value) : Option String :=
  (v.get? key).bind string?

/-- An integer value. -/
def ofNat (n : Nat) : Value :=
  .number (.int n)

/-- A list of strings as an array. -/
def ofStrings (items : List String) : Value :=
  .array (items.map .string)

end Value

end DesignTokens.Json
