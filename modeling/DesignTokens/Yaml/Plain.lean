import DesignTokens.Decimal.Reading
import DesignTokens.Text.Edit
import DesignTokens.Yaml.Token.Scalar

/-!
# The meaning of plain scalars

A plain scalar may spell null, a boolean, an integer or a real number; any other is a string.
Integers may be hexadecimal, octal or binary. Digits after a leading zero make no number.
-/

namespace DesignTokens.Yaml

/-- A real number, with the infinities and the one that is no number. -/
inductive Real where
  | finite (d : Decimal.Double)
  | infinite (negative : Bool)
  | nan
deriving DecidableEq, Repr

/-- Whether a text spells null. -/
def isNull (s : String) : Bool :=
  s = "null" || s = "Null" || s = "NULL" || s = "~"

/-- The boolean that a text spells. -/
def bool? (s : String) : Option Bool :=
  if s = "true" || s = "True" || s = "TRUE" then some true
  else if s = "false" || s = "False" || s = "FALSE" then some false
  else none

/-- Whether a text is a leading zero with digits after it, perhaps after a sign. -/
def isZeroPadded (cs : List Char) : Bool :=
  let digits := match cs with
    | '-' :: rest => rest
    | '+' :: rest => rest
    | _ => cs
  match digits with
  | '0' :: rest => !rest.isEmpty && rest.all fun c => '0' ≤ c && c ≤ '9'
  | _ => false

/-- The number that digits of a base spell; at least one digit is needed. -/
def digitsIn? (base : Nat) (cs : List Char) : Option Nat :=
  if cs.isEmpty then none
  else cs.foldlM (fun n c => match hexValue? c with
    | some d => if d < base then some (n * base + d) else none
    | none => none) 0

/-- The number after the marker of its base, if it is within `limit`. -/
def based? (limit : Nat) (cs : List Char) : Option Nat :=
  let within (n : Option Nat) : Option Nat := n.bind fun n => if n ≤ limit then some n else none
  match cs with
  | '0' :: 'x' :: rest => within (digitsIn? 16 rest)
  | '0' :: 'o' :: rest => within (digitsIn? 8 rest)
  | '0' :: 'b' :: rest => within (digitsIn? 2 rest)
  | _ => none

/-- The natural number that a text spells, perhaps after a plus sign, if it is within `limit`. -/
def unsigned? (limit : Nat) (cs : List Char) : Option Nat :=
  let body := match cs with
    | '+' :: rest => rest
    | _ => cs
  match based? limit body with
  | some n => some n
  | none =>
    if isZeroPadded cs then none
    else (digitsIn? 10 body).bind fun n => if n ≤ limit then some n else none

/-- The number that a text spells after a minus sign, if it is within `limit`. -/
def negated? (limit : Nat) (cs : List Char) : Option Nat :=
  match cs with
  | '-' :: body =>
    match based? limit body with
    | some n => some n
    | none =>
      if isZeroPadded cs then none
      else (digitsIn? 10 body).bind fun n => if n ≤ limit then some n else none
  | _ => none

/-- An integer by the width it needs. -/
inductive Integer where
  /-- At most 64 bits. -/
  | word (n : Int)
  /-- At most 128 bits without a sign. -/
  | wide (n : Nat)
  /-- At most 128 bits with a minus sign. -/
  | wideNegative (n : Nat)

/-- The integer that a text spells. -/
def integer? (s : String) : Option Integer :=
  let cs := s.toList
  match unsigned? (Nat.pow 2 64 - 1) cs with
  | some n => some (.word n)
  | none =>
    match negated? (Nat.pow 2 63) cs with
    | some n => some (.word (-n))
    | none =>
      match unsigned? (Nat.pow 2 128 - 1) cs with
      | some n => some (.wide n)
      | none => (negated? (Nat.pow 2 127) cs).map .wideNegative

/-- The exponent of a numeral: a sign or none, then digits. -/
def exponent? (cs : List Char) : Option Int :=
  match cs with
  | '+' :: rest => (digitsIn? 10 rest).map fun n => (n : Int)
  | '-' :: rest => (digitsIn? 10 rest).map fun n => -(n : Int)
  | _ => (digitsIn? 10 cs).map fun n => (n : Int)

/-- The double nearest to a decimal numeral with a digit before or after its point. -/
def decimal? (negative : Bool) (cs : List Char) : Option Decimal.Double :=
  let isDigit (c : Char) : Bool := '0' ≤ c && c ≤ '9'
  let whole := cs.takeWhile isDigit
  let afterWhole := cs.dropWhile isDigit
  let (fraction, rest) := match afterWhole with
    | '.' :: r => (r.takeWhile isDigit, r.dropWhile isDigit)
    | r => ([], r)
  match digitsIn? 10 (whole ++ fraction) with
  | none => none
  | some m =>
    let exponent := match rest with
      | [] => some 0
      | 'e' :: r => exponent? r
      | 'E' :: r => exponent? r
      | _ => none
    exponent.bind fun e => Decimal.nearest negative m (e - fraction.length)

/-- The real number that a text spells. -/
def real? (s : String) : Option Real :=
  let cs := s.toList
  let unsigned := match cs with
    | '+' :: rest => rest
    | _ => cs
  let doubled := cs.head? == some '+' && (unsigned.head? == some '+' || unsigned.head? == some '-')
  let body := String.ofList unsigned
  if doubled then none
  else if body = ".inf" || body = ".Inf" || body = ".INF" then some (.infinite false)
  else if s = "-.inf" || s = "-.Inf" || s = "-.INF" then some (.infinite true)
  else if s = ".nan" || s = ".NaN" || s = ".NAN" then some .nan
  else
    match unsigned with
    | '-' :: rest => (decimal? true rest).map .finite
    | _ => (decimal? false unsigned).map .finite

end DesignTokens.Yaml
