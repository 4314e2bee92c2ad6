import DesignTokens.Decimal.Shortest
import DesignTokens.Json.Value

/-!
# Compact JSON text

A value is written without blanks, fields in key order, with the shortest text for each double.
Only quotes, backslashes and control characters are escaped.
-/

namespace DesignTokens.Json

/-- Doubles are written positionally from `10 ^ -5` to `10 ^ 15`; otherwise the exponent carries
its sign. -/
def numberLayout : Decimal.Layout :=
  { positionalFrom := -5, positionalTo := 15, plusSign := true }

/-- The text of a number. -/
def Number.text : Number → String
  | .int n => if n < 0 then "-" ++ Nat.repr n.natAbs else Nat.repr n.natAbs
  | .double d => numberLayout.text d

/-- The digit of a number below sixteen. -/
def hexDigit (n : Nat) : Char :=
  if n < 10 then Char.ofNat (48 + n) else Char.ofNat (87 + n)

/-- A character inside a string literal. -/
def escapeChar (c : Char) : List Char :=
  if c = '"' then ['\\', '"']
  else if c = '\\' then ['\\', '\\']
  else if c = '\n' then ['\\', 'n']
  else if c = '\r' then ['\\', 'r']
  else if c = '\t' then ['\\', 't']
  else if c.toNat = 8 then ['\\', 'b']
  else if c.toNat = 12 then ['\\', 'f']
  else if c.toNat < 32 then ['\\', 'u', '0', '0', hexDigit (c.toNat / 16), hexDigit (c.toNat % 16)]
  else [c]

/-- A string as a literal. -/
def quote (s : String) : String :=
  String.ofList ('"' :: (s.toList.flatMap escapeChar ++ ['"']))

mutual

/-- The compact text of a value. -/
def Value.compact : Value → String
  | .null => "null"
  | .bool b => if b then "true" else "false"
  | .number n => n.text
  | .string s => quote s
  | .array items => "[" ++ compactItems items ++ "]"
  | .object fields => "\x7b" ++ compactFields fields ++ "\x7d"

/-- The items of an array with commas between them. -/
def compactItems : List Value → String
  | [] => ""
  | [v] => v.compact
  | v :: w :: rest => v.compact ++ "," ++ compactItems (w :: rest)

/-- The fields of an object with commas between them. -/
def compactFields : List (String × Value) → String
  | [] => ""
  | [(k, v)] => quote k ++ ":" ++ v.compact
  | (k, v) :: e :: rest => quote k ++ ":" ++ v.compact ++ "," ++ compactFields (e :: rest)

end

end DesignTokens.Json
