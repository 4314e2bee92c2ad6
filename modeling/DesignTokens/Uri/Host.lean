import DesignTokens.Text.Edit
import DesignTokens.Text.LowerCase
import DesignTokens.Text.Quoted
import DesignTokens.Uri.Percent
import DesignTokens.Uri.Punycode

/-!
# Hosts of addresses

A host is a domain name, in lower case and ASCII, or an IP address in its shortest form. Schemes
that say nothing of hosts have any text there.
-/

namespace DesignTokens.Uri

/-- Why a text is no address. -/
inductive Fault where
  | relative
  | emptyHost
  | badPort
  | badDomain
  | badDomainCharacter
  | badIpv4
  | badIpv6
deriving DecidableEq, Repr

/-- The wording of a fault. -/
def Fault.message : Fault → String
  | .relative => "relative URL without a base"
  | .emptyHost => "empty host"
  | .badPort => "invalid port number"
  | .badDomain => "invalid international domain name"
  | .badDomainCharacter => "invalid domain character"
  | .badIpv4 => "invalid IPv4 address"
  | .badIpv6 => "invalid IPv6 address"

/-- The value of digits in a base; none if one is too large. -/
def digitsValue? (base : Nat) (cs : List Char) : Option Nat :=
  cs.foldlM
    (fun n c => (hexValue? c).bind fun d => if d < base then some (base * n + d) else none) 0

/-! ## IPv4 -/

/-- A number of an IPv4 address: decimal, octal after a zero, or hexadecimal after `0x`. -/
def ipv4Number? : List Char → Option Nat
  | [] => none
  | '0' :: 'x' :: rest => digitsValue? 16 rest
  | '0' :: 'X' :: rest => digitsValue? 16 rest
  | '0' :: d :: rest => digitsValue? 8 (d :: rest)
  | cs => digitsValue? 10 cs

/-- The parts of a host between points; a point at the end does not count. -/
def hostParts (host : List Char) : List (List Char) :=
  let parts := Text.splitChars '.' host
  if parts.getLast? = some [] ∧ 1 < parts.length then parts.dropLast else parts

/-- Whether a host must be an IPv4 address: its last part is a number. -/
def endsInNumber (host : List Char) : Bool :=
  match (hostParts host).getLast? with
  | none => false
  | some [] => false
  | some part => part.all Char.isDigit || (ipv4Number? part).isSome

/-- The value of an IPv4 address: each number but the last is one byte, the last takes the rest. -/
def ipv4Value? (numbers : List Nat) : Option Nat :=
  match numbers.reverse with
  | [] => none
  | last :: others =>
    if others.length ≤ 3 ∧ others.all (· < 256) ∧ last < Nat.pow 256 (4 - others.length) then
      some ((others.reverse.foldl (fun n b => 256 * n + b) 0) * Nat.pow 256 (4 - others.length)
        + last)
    else none

/-- An IPv4 address as four numbers. -/
def ipv4Text (value : Nat) : String :=
  Text.join "." ([value / Nat.pow 256 3, value / Nat.pow 256 2 % 256, value / 256 % 256,
    value % 256].map Nat.repr)

/-- Reads an IPv4 address. -/
def ipv4 (host : List Char) : Except Fault String :=
  match ((hostParts host).mapM ipv4Number?).bind ipv4Value? with
  | some value => .ok (ipv4Text value)
  | none => .error .badIpv4

/-! ## IPv6 -/

/-- One group of an IPv6 address. -/
def ipv6Group? (cs : List Char) : Option Nat :=
  if cs.isEmpty ∨ 4 < cs.length then none else digitsValue? 16 cs

/-- A byte of an IPv4 address at the end of an IPv6 address. -/
def plainByte? (cs : List Char) : Option Nat :=
  if cs.isEmpty ∨ (cs.head? = some '0' ∧ 1 < cs.length) then none
  else (digitsValue? 10 cs).bind fun n => if n < 256 then some n else none

/-- The two groups of an IPv4 address. -/
def embedded? (cs : List Char) : Option (List Nat) :=
  match (Text.splitChars '.' cs).mapM plainByte? with
  | some [a, b, c, d] => some [256 * a + b, 256 * c + d]
  | _ => none

/-- The groups between colons; the last piece may be an IPv4 address if `atEnd`. -/
def ipv6Groups? (atEnd : Bool) (cs : List Char) : Option (List Nat) :=
  if cs.isEmpty then some []
  else
    let pieces := Text.splitChars ':' cs
    match pieces.getLast? with
    | some last =>
      if atEnd && last.contains '.' then do
        let before ← pieces.dropLast.mapM ipv6Group?
        let after ← embedded? last
        return before ++ after
      else pieces.mapM ipv6Group?
    | none => some []

/-- The texts before and after the first pair of colons. -/
def aroundColons : List Char → Option (List Char × List Char)
  | [] => none
  | ':' :: ':' :: rest => some ([], rest)
  | c :: rest => (aroundColons rest).map fun (a, b) => (c :: a, b)

/-- The eight groups of an IPv6 address. -/
def ipv6Value? (cs : List Char) : Option (List Nat) :=
  match aroundColons cs with
  | some (a, b) => do
    let before ← ipv6Groups? false a
    let after ← ipv6Groups? true b
    if before.length + after.length ≤ 7 then
      some (before ++ List.replicate (8 - before.length - after.length) 0 ++ after)
    else none
  | none => (ipv6Groups? true cs).bind fun groups => if groups.length = 8 then some groups else none

/-- The length of the run of zeros at the front. -/
def zeroRun (groups : List Nat) : Nat :=
  (groups.takeWhile (· = 0)).length

/-- The start and the length of the longest run of zeros, the first of several. -/
def longestZeros (groups : List Nat) : Nat × Nat :=
  (List.range groups.length).foldl (fun best i =>
    let n := zeroRun (groups.drop i)
    if best.2 < n then (i, n) else best) (0, 0)

/-- An IPv6 address with its longest run of zeros left out. -/
def ipv6Text (groups : List Nat) : String :=
  let text (gs : List Nat) := Text.join ":" (gs.map fun n => String.ofList (Text.hexDigits n))
  let (start, length) := longestZeros groups
  if length < 2 then "[" ++ text groups ++ "]"
  else "[" ++ text (groups.take start) ++ "::" ++ text (groups.drop (start + length)) ++ "]"

/-- Reads an IPv6 address after its opening bracket. -/
def ipv6 (rest : List Char) : Except Fault String :=
  match rest.getLast?, ipv6Value? rest.dropLast with
  | some ']', some groups => .ok (ipv6Text groups)
  | _, _ => .error .badIpv6

/-! ## Hosts -/

/-- Characters that no host may have. -/
def isForbidden (c : Char) : Bool :=
  [' ', '#', '/', ':', '<', '>', '?', '@', '[', '\\', ']', '^', '|'].contains c || c.toNat = 0 ||
    c.toNat = 9 || c.toNat = 10 || c.toNat = 13

/-- Characters that no domain name may have. -/
def isForbiddenInDomain (c : Char) : Bool :=
  isForbidden c || inControls c || c = '%'

/-- The ASCII form of a domain name. -/
def asciiDomain (domain : List Char) : List Char :=
  (Text.join "." (((Text.splitChars '.' (Text.lower domain)).map asciiLabel).map
    String.ofList)).toList

/-- Reads the host of a scheme that has domain names. -/
def domainHost (cs : List Char) : Except Fault String :=
  match cs with
  | '[' :: rest => ipv6 rest
  | _ =>
    match decode? cs with
    | none => .error .badDomain
    | some text =>
      let domain := asciiDomain text.toList
      if domain.isEmpty then .error .emptyHost
      else if domain.any isForbiddenInDomain then .error .badDomain
      else if endsInNumber domain then ipv4 domain
      else .ok (String.ofList domain)

/-- Reads the host of any other scheme. -/
def plainHost (cs : List Char) : Except Fault String :=
  match cs with
  | '[' :: rest => ipv6 rest
  | _ =>
    if cs.any isForbidden then .error .badDomainCharacter
    else .ok (String.ofList (encode inControls cs))

end DesignTokens.Uri
