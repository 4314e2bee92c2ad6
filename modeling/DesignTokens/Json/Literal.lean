import DesignTokens.Decimal.Reading
import DesignTokens.Json.Fault
import DesignTokens.Json.Value

/-!
# Literals in JSON text

Strings, numbers and the three words, each read from the front of the text and returned with the
characters that follow.
-/

namespace DesignTokens.Json

/-- The blanks between the parts of a document. -/
def isGap (c : Char) : Bool :=
  c = ' ' || c = '\n' || c = '\t' || c = '\r'

/-- The text from its first character that is not a gap. -/
def skipGaps (s : List Char) : List Char :=
  s.dropWhile isGap

/-! ## Words -/

/-- Reads the letters of a word. -/
def word : (letters : List Char) → (s : List Char) → Except Fault (List Char)
  | [], s => .ok s
  | _ :: _, [] => .error ⟨.unfinishedValue, [], 0⟩
  | l :: letters, c :: s => if l = c then word letters s else .error ⟨.expectedWord, c :: s, 1⟩

/-! ## Strings -/

/-- The value of a hexadecimal digit. -/
def hexValue? (c : Char) : Option Nat :=
  if '0' ≤ c ∧ c ≤ '9' then some (c.toNat - 48)
  else if 'a' ≤ c ∧ c ≤ 'f' then some (c.toNat - 87)
  else if 'A' ≤ c ∧ c ≤ 'F' then some (c.toNat - 55)
  else none

/-- The number that four hexadecimal digits spell. -/
def hexValue4? (a b c d : Char) : Option Nat := do
  let a ← hexValue? a
  let b ← hexValue? b
  let c ← hexValue? c
  let d ← hexValue? d
  return ((a * 16 + b) * 16 + c) * 16 + d

/-- The fault of an escape whose four digits are not there: they are the next four bytes. -/
def hexFault (s : List Char) : Fault :=
  if Text.bytes s < 4 then ⟨.unfinishedString, [], 0⟩ else ⟨.invalidEscape, s, 4⟩

/-- The character that a letter after a backslash stands for. -/
def escaped? (c : Char) : Option Char :=
  if c = '"' ∨ c = '\\' ∨ c = '/' then some c
  else if c = 'b' then some (Char.ofNat 8)
  else if c = 'f' then some (Char.ofNat 12)
  else if c = 'n' then some '\n'
  else if c = 'r' then some '\r'
  else if c = 't' then some '\t'
  else none

/-- Puts a character before the text that was read. -/
def prepend (c : Char) : Except Fault (List Char × List Char) → Except Fault (List Char × List Char)
  | .ok (t, r) => .ok (c :: t, r)
  | .error f => .error f

/-- Reads the rest of a string, up to and with its closing quote. A character outside the basic
plane may be written as two escapes. -/
def stringRest : List Char → Except Fault (List Char × List Char)
  | [] => .error ⟨.unfinishedString, [], 0⟩
  | '"' :: s => .ok ([], s)
  | '\\' :: 'u' :: a :: b :: c :: d :: s =>
    match hexValue4? a b c d with
    | none => .error (hexFault (a :: b :: c :: d :: s))
    | some n =>
      if 0xDC00 ≤ n ∧ n ≤ 0xDFFF then .error ⟨.loneSurrogate, s, 0⟩
      else if 0xD800 ≤ n ∧ n ≤ 0xDBFF then
        match s with
        | [] => .error ⟨.unfinishedString, [], 0⟩
        | '\\' :: [] => .error ⟨.unfinishedString, [], 0⟩
        | '\\' :: 'u' :: a' :: b' :: c' :: d' :: s' =>
          match hexValue4? a' b' c' d' with
          | none => .error (hexFault (a' :: b' :: c' :: d' :: s'))
          | some m =>
            if 0xDC00 ≤ m ∧ m ≤ 0xDFFF then
              prepend (Char.ofNat ((n - 0xD800) * 0x400 + (m - 0xDC00) + 0x10000)) (stringRest s')
            else .error ⟨.loneSurrogate, s', 0⟩
        | '\\' :: 'u' :: s' => .error (hexFault s')
        | '\\' :: s' => .error ⟨.unfinishedEscape, s', 1⟩
        | s' => .error ⟨.unfinishedEscape, s', 1⟩
      else prepend (Char.ofNat n) (stringRest s)
  | '\\' :: 'u' :: s => .error (hexFault s)
  | '\\' :: c :: s =>
    match escaped? c with
    | some e => prepend e (stringRest s)
    | none => .error ⟨.invalidEscape, c :: s, 1⟩
  | '\\' :: [] => .error ⟨.unfinishedString, [], 0⟩
  | c :: s =>
    if c.toNat < 32 then .error ⟨.controlCharacter, c :: s, 1⟩
    else prepend c (stringRest s)

/-! ## Numbers -/

/-- The value of a decimal digit. -/
def digitValue? (c : Char) : Option Nat :=
  if '0' ≤ c ∧ c ≤ '9' then some (c.toNat - 48) else none

/-- Whether a text goes on with a digit. -/
def startsWithDigit : List Char → Bool
  | c :: _ => (digitValue? c).isSome
  | [] => false

/-- Appends digits to `n`: the number, how many digits there are, and what follows them. -/
def readDigits (n count : Nat) : List Char → Nat × Nat × List Char
  | [] => (n, count, [])
  | c :: s =>
    match digitValue? c with
    | none => (n, count, c :: s)
    | some d => readDigits (n * 10 + d) (count + 1) s

/-- The number of digits of an exponent, from the first on, that keep it within 31 bits. -/
def exponentLength (n : Nat) : List Char → Nat
  | [] => 0
  | c :: s =>
    match digitValue? c with
    | none => 0
    | some d => if Nat.pow 2 31 ≤ n * 10 + d then 0 else 1 + exponentLength (n * 10 + d) s

/-- A double from its decimal parts; `s` is what follows the numeral. -/
def finishDouble (negative : Bool) (significand : Nat) (exponent : Int) (s : List Char) :
    Except Fault (Number × List Char) :=
  match Decimal.nearest negative significand exponent with
  | some d => .ok (.double d, s)
  | none => .error ⟨.numberOutOfRange, s, 0⟩

/-- The digits of an exponent, after its sign. -/
def exponentDigits (negative : Bool) (significand : Nat) (start : Int) (down : Bool)
    (s : List Char) : Except Fault (Number × List Char) :=
  match s with
  | [] => .error ⟨.unfinishedValue, [], 0⟩
  | c :: s' =>
    if (digitValue? c).isNone then .error ⟨.invalidNumber, c :: s', 1⟩
    else
      let (e, count, s'') := readDigits 0 0 s
      let kept := exponentLength 0 s
      if kept < count then
        -- No number but zero has room for such an exponent, and no small one is told from zero.
        if significand ≠ 0 ∧ !down then .error ⟨.numberOutOfRange, s.drop kept, 1⟩
        else .ok (.double (.zero negative), s'')
      else finishDouble negative significand (if down then start - e else start + e) s''

/-- The exponent of a numeral, after its `e`. -/
def exponentPart (negative : Bool) (significand : Nat) (start : Int) (s : List Char) :
    Except Fault (Number × List Char) :=
  match s with
  | '+' :: s' => exponentDigits negative significand start false s'
  | '-' :: s' => exponentDigits negative significand start true s'
  | _ => exponentDigits negative significand start false s

/-- The end of a numeral with a fraction: an exponent or nothing. -/
def fractionEnd (negative : Bool) (significand : Nat) (exponent : Int) (s : List Char) :
    Except Fault (Number × List Char) :=
  match s with
  | 'e' :: s' => exponentPart negative significand exponent s'
  | 'E' :: s' => exponentPart negative significand exponent s'
  | _ => finishDouble negative significand exponent s

/-- The fraction of a numeral, after its point. -/
def fractionPart (negative : Bool) (significand : Nat) (s : List Char) :
    Except Fault (Number × List Char) :=
  let (m, count, s') := readDigits significand 0 s
  if count = 0 then
    .error ⟨if s'.isEmpty then .unfinishedValue else .invalidNumber, s', 1⟩
  else fractionEnd negative m (-count) s'

/-- The number of a numeral without fraction and exponent. A number that no 64-bit integer holds,
and a negated zero, are doubles. -/
def integerNumber (negative : Bool) (significand : Nat) (s : List Char) :
    Except Fault (Number × List Char) :=
  if !negative ∧ significand < Nat.pow 2 64 then .ok (.int significand, s)
  else if negative ∧ significand ≠ 0 ∧ significand ≤ Nat.pow 2 63 then .ok (.int (-significand), s)
  else finishDouble negative significand 0 s

/-- The end of a numeral after the digits before the point. -/
def numberEnd (negative : Bool) (significand : Nat) (s : List Char) :
    Except Fault (Number × List Char) :=
  match s with
  | '.' :: s' => fractionPart negative significand s'
  | 'e' :: s' => exponentPart negative significand 0 s'
  | 'E' :: s' => exponentPart negative significand 0 s'
  | _ => integerNumber negative significand s

/-- Reads a numeral after its sign. -/
def number (negative : Bool) : List Char → Except Fault (Number × List Char)
  | [] => .error ⟨.unfinishedValue, [], 0⟩
  | '0' :: s =>
    if startsWithDigit s then .error ⟨.invalidNumber, s, 1⟩ else numberEnd negative 0 s
  | c :: s =>
    if (digitValue? c).isNone then .error ⟨.invalidNumber, c :: s, 1⟩
    else
      let (m, _, s') := readDigits 0 0 (c :: s)
      numberEnd negative m s'

end DesignTokens.Json
