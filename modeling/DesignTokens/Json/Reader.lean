import DesignTokens.Json.Literal

/-!
# Reading JSON text

`Value.parse` reads a whole document. Nesting is limited: a document of depth `depthLimit` or more
is refused at the bracket that reaches it. Of fields with one key the last counts.
-/

namespace DesignTokens.Json

/-- The depth of nesting that is refused. -/
def depthLimit : Nat := 128

mutual

/-- Reads a value from the front of the text, with `depth` levels of nesting left. Each call
spends one unit of `fuel`; four units a character are enough. -/
def readValue : (fuel depth : Nat) → List Char → Except Fault (Value × List Char)
  | 0, _, s => .error ⟨.tooDeep, s, 1⟩
  | fuel + 1, depth, s =>
    match skipGaps s with
    | [] => .error ⟨.unfinishedValue, [], 1⟩
    | c :: t =>
      if c = 'n' then (word ['u', 'l', 'l'] t).map fun r => (.null, r)
      else if c = 't' then (word ['r', 'u', 'e'] t).map fun r => (.bool true, r)
      else if c = 'f' then (word ['a', 'l', 's', 'e'] t).map fun r => (.bool false, r)
      else if c = '-' then (number true t).map fun (n, r) => (.number n, r)
      else if (digitValue? c).isSome then (number false (c :: t)).map fun (n, r) => (.number n, r)
      else if c = '"' then (stringRest t).map fun (x, r) => (.string (String.ofList x), r)
      else if c = '[' then
        if depth ≤ 1 then .error ⟨.tooDeep, c :: t, 1⟩
        else (readItems fuel (depth - 1) true t).map fun (vs, r) => (.array vs, r)
      else if c = '{' then
        if depth ≤ 1 then .error ⟨.tooDeep, c :: t, 1⟩
        else (readFields fuel (depth - 1) true t).map fun (fs, r) => (.ofFields fs, r)
      else .error ⟨.expectedValue, c :: t, 1⟩

/-- Reads the items of an array up to its closing bracket; `first` before the first item. -/
def readItems : (fuel depth : Nat) → (first : Bool) → List Char →
    Except Fault (List Value × List Char)
  | 0, _, _, s => .error ⟨.tooDeep, s, 1⟩
  | fuel + 1, depth, first, s =>
    match skipGaps s with
    | [] => .error ⟨.unfinishedList, [], 1⟩
    | c :: t =>
      if c = ']' then .ok ([], t)
      else if first then readItem fuel depth (c :: t)
      else if c = ',' then
        match skipGaps t with
        | [] => .error ⟨.unfinishedValue, [], 1⟩
        | d :: u =>
          if d = ']' then .error ⟨.trailingComma, d :: u, 1⟩ else readItem fuel depth (d :: u)
      else .error ⟨.expectedListEnd, c :: t, 1⟩

/-- Reads an item of an array and those after it. -/
def readItem : (fuel depth : Nat) → List Char → Except Fault (List Value × List Char)
  | 0, _, s => .error ⟨.tooDeep, s, 1⟩
  | fuel + 1, depth, s =>
    match readValue fuel depth s with
    | .error f => .error f
    | .ok (v, r) => (readItems fuel depth false r).map fun (vs, r') => (v :: vs, r')

/-- Reads the fields of an object up to its closing brace; `first` before the first field. -/
def readFields : (fuel depth : Nat) → (first : Bool) → List Char →
    Except Fault (List (String × Value) × List Char)
  | 0, _, _, s => .error ⟨.tooDeep, s, 1⟩
  | fuel + 1, depth, first, s =>
    match skipGaps s with
    | [] => .error ⟨.unfinishedObject, [], 1⟩
    | c :: t =>
      if c = '}' then .ok ([], t)
      else if first then
        if c = '"' then readField fuel depth t else .error ⟨.keyNotString, c :: t, 1⟩
      else if c = ',' then
        match skipGaps t with
        | [] => .error ⟨.unfinishedValue, [], 1⟩
        | d :: u =>
          if d = '"' then readField fuel depth u
          else if d = '}' then .error ⟨.trailingComma, d :: u, 1⟩
          else .error ⟨.keyNotString, d :: u, 1⟩
      else .error ⟨.expectedObjectEnd, c :: t, 1⟩

/-- Reads a field, after the opening quote of its key, and those after it. -/
def readField : (fuel depth : Nat) → List Char → Except Fault (List (String × Value) × List Char)
  | 0, _, s => .error ⟨.tooDeep, s, 1⟩
  | fuel + 1, depth, s =>
    match stringRest s with
    | .error f => .error f
    | .ok (key, r) =>
      match skipGaps r with
      | [] => .error ⟨.unfinishedObject, [], 1⟩
      | c :: t =>
        if c = ':' then
          match readValue fuel depth t with
          | .error f => .error f
          | .ok (v, r') =>
            (readFields fuel depth false r').map fun (fs, r'') =>
              ((String.ofList key, v) :: fs, r'')
        else .error ⟨.expectedColon, c :: t, 1⟩

end

/-- Reads a document: one value with nothing but gaps after it. -/
def readDocument (s : List Char) : Except Fault Value :=
  match readValue (4 * s.length + 4) depthLimit s with
  | .error f => .error f
  | .ok (v, r) =>
    match skipGaps r with
    | [] => .ok v
    | c :: t => .error ⟨.trailingCharacters, c :: t, 1⟩

/-- The value of a JSON text. -/
def Value.parse (text : String) : Except Error Value :=
  (readDocument text.toList).mapError (Fault.report text.toList)

end DesignTokens.Json
