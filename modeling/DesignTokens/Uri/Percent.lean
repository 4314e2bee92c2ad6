import DesignTokens.Text.Units

/-!
# Percent encoding

A byte that may not stand in a part of an address is written as a percent sign and two hexadecimal
digits. Which ASCII characters must be encoded depends on the part; all others are encoded always.
-/

namespace DesignTokens.Uri

/-- The upper-case digit of a number below sixteen. -/
def hexUpper (n : Nat) : Char :=
  if n < 10 then Char.ofNat (48 + n) else Char.ofNat (55 + n)

/-- A byte in encoded form. -/
def encodeByte (b : UInt8) : List Char :=
  ['%', hexUpper (b.toNat / 16), hexUpper (b.toNat % 16)]

/-- Encodes a character if `mustEncode` says so or if it is not ASCII. -/
def encodeChar (mustEncode : Char → Bool) (c : Char) : List Char :=
  if mustEncode c || 0x80 ≤ c.toNat then (Text.charBytes c).flatMap encodeByte else [c]

/-- Encodes a text. -/
def encode (mustEncode : Char → Bool) (cs : List Char) : List Char :=
  cs.flatMap (encodeChar mustEncode)

/-- Control characters. -/
def inControls (c : Char) : Bool :=
  c.toNat < 0x20 || c.toNat = 0x7F

/-- What is encoded in a fragment. -/
def inFragment (c : Char) : Bool :=
  inControls c || [' ', '"', '<', '>', Char.ofNat 0x60].contains c

/-- What is encoded in a path. -/
def inPath (c : Char) : Bool :=
  inFragment c || ['#', '?', '^', '{', '}'].contains c

/-- What is encoded in one segment of a file path. -/
def inSegment (c : Char) : Bool :=
  inPath c || ['/', '%', '\\'].contains c

/-- What is encoded in user names and passwords. -/
def inUserInfo (c : Char) : Bool :=
  inPath c || ['/', ':', ';', '=', '@', '[', '\\', ']', '|'].contains c

/-- What is encoded in a query. -/
def inQuery (special : Bool) (c : Char) : Bool :=
  inControls c || [' ', '"', '#', '<', '>'].contains c || (special && c = '\'')

/-- The value of a hexadecimal digit. -/
def hexValue? (c : Char) : Option Nat :=
  if '0' ≤ c ∧ c ≤ '9' then some (c.toNat - 48)
  else if 'a' ≤ c ∧ c ≤ 'f' then some (c.toNat - 87)
  else if 'A' ≤ c ∧ c ≤ 'F' then some (c.toNat - 55)
  else none

/-- The bytes of a text with encoded bytes decoded. A percent sign without two digits after it
stands for itself. -/
def decodeBytes : List Char → List UInt8
  | [] => []
  | '%' :: a :: b :: rest =>
    match hexValue? a, hexValue? b with
    | some x, some y => UInt8.ofNat (16 * x + y) :: decodeBytes rest
    | _, _ => 37 :: decodeBytes (a :: b :: rest)
  | c :: rest => Text.charBytes c ++ decodeBytes rest

/-- The text with encoded bytes decoded, if it is one. -/
def decode? (cs : List Char) : Option String :=
  String.fromUTF8? ⟨(decodeBytes cs).toArray⟩

end DesignTokens.Uri
