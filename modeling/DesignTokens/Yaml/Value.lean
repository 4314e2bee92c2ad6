import DesignTokens.Decimal.Shortest
import DesignTokens.Json.Fault
import DesignTokens.Json.Value
import DesignTokens.Json.Writer
import DesignTokens.Yaml.Plain

/-!
# YAML values

The values that nodes stand for, and the JSON values made of them. The keys of a mapping are in
the order of the text.
-/

namespace DesignTokens.Yaml

/-- A YAML value. -/
inductive Value where
  | null
  | bool (b : Bool)
  | int (n : Int)
  | real (r : Real)
  | string (s : String)
  | sequence (items : List Value)
  | mapping (entries : List (Value × Value))
  /-- A value with a tag of its own, written without its bang. -/
  | tagged (tag : String) (value : Value)
deriving Repr, Inhabited

/-- Whether two numbers are equal; the two zeros are, and so is what is no number. -/
def Real.same : Real → Real → Bool
  | .finite a, .finite b => a.sameNumber b
  | .infinite a, .infinite b => a == b
  | .nan, .nan => true
  | _, _ => false

/-- A tag without a bang before it. A lone bang stays. -/
def dropBang (tag : String) : String :=
  match tag.toList with
  | '!' :: c :: rest => String.ofList (c :: rest)
  | _ => tag

mutual

/-- Whether two values are equal; the order of a mapping's entries does not count. -/
def Value.same : Value → Value → Bool
  | .null, .null => true
  | .bool a, .bool b => a == b
  | .int a, .int b => a == b
  | .real a, .real b => a.same b
  | .string a, .string b => a == b
  | .sequence as, .sequence bs => sameItems as bs
  | .mapping as, .mapping bs => as.length == bs.length && sameEntries as bs
  | .tagged s a, .tagged t b => dropBang s == dropBang t && a.same b
  | _, _ => false

/-- Whether the items of two sequences are equal one by one. -/
def sameItems : List Value → List Value → Bool
  | [], [] => true
  | a :: as, b :: bs => a.same b && sameItems as bs
  | _, _ => false

/-- Whether each entry of one mapping is an entry of the other. -/
def sameEntries : List (Value × Value) → List (Value × Value) → Bool
  | [], _ => true
  | (k, v) :: as, bs => bs.any (fun b => k.same b.1 && v.same b.2) && sameEntries as bs

end

/-! ## As JSON -/

/-- The text of a key in a JSON object. -/
def Value.key : Value → Except Json.Cause String
  | .string s => .ok s
  | .bool b => .ok (if b then "true" else "false")
  | .int n => .ok (Json.Number.int n).text
  | .real (.finite d) => .ok (Json.Number.double d).text
  | .real _ => .error .keyNotFinite
  | _ => .error .keyNotString

mutual

/-- The JSON value of a YAML value. Numbers that are not finite become null, and a tagged value an
object with the tag as its key. -/
def Value.toJson : Value → Except Json.Cause Json.Value
  | .null => .ok .null
  | .bool b => .ok (.bool b)
  | .int n => .ok (.number (.int n))
  | .real (.finite d) => .ok (.number (.double d))
  | .real _ => .ok .null
  | .string s => .ok (.string s)
  | .sequence items =>
    match itemsToJson items with
    | .ok vs => .ok (.array vs)
    | .error e => .error e
  | .mapping entries =>
    match entriesToJson entries with
    | .ok fs => .ok (.ofFields fs)
    | .error e => .error e
  | .tagged tag v =>
    match v.toJson with
    | .ok j => .ok (.object [("!" ++ dropBang tag, j)])
    | .error e => .error e

/-- The JSON values of the items of a sequence. -/
def itemsToJson : List Value → Except Json.Cause (List Json.Value)
  | [] => .ok []
  | v :: vs =>
    match v.toJson with
    | .error e => .error e
    | .ok j =>
      match itemsToJson vs with
      | .error e => .error e
      | .ok js => .ok (j :: js)

/-- The JSON fields of the entries of a mapping. -/
def entriesToJson : List (Value × Value) → Except Json.Cause (List (String × Json.Value))
  | [] => .ok []
  | (k, v) :: es =>
    match k.key with
    | .error e => .error e
    | .ok key =>
      match v.toJson with
      | .error e => .error e
      | .ok j =>
        match entriesToJson es with
        | .error e => .error e
        | .ok fs => .ok ((key, j) :: fs)

end

end DesignTokens.Yaml
