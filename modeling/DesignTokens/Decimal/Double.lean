/-!
# Numbers of double precision

A `Double` is a finite number `± mantissa · 2 ^ exponent` of the 64-bit binary format. Values are
kept exactly: `round` takes a quotient of natural numbers to the nearest double, a half going to
the even mantissa.
-/

namespace DesignTokens.Decimal

/-- A finite number of the 64-bit binary format, `± mantissa · 2 ^ exponent`. -/
structure Double where
  /-- Whether the sign bit is set; zero has a sign too. -/
  negative : Bool
  /-- Below `2 ^ 53`, and at least `2 ^ 52` unless the exponent is the least one. -/
  mantissa : Nat
  /-- Between `-1074` and `971`. -/
  exponent : Int
deriving DecidableEq, Repr

namespace Double

/-- The least exponent of a double. -/
def minExponent : Int := -1074

/-- The greatest exponent of a double. -/
def maxExponent : Int := 971

/-- The zero with the given sign. -/
def zero (negative : Bool) : Double :=
  ⟨negative, 0, minExponent⟩

/-- The numerator and denominator of `num / den · 2 ^ (-e)`. -/
def scaleBy (num den : Nat) (e : Int) : Nat × Nat :=
  if 0 ≤ e then (num, den * Nat.pow 2 e.toNat) else (num * Nat.pow 2 (-e).toNat, den)

/-- The quotient to the nearest natural number, a half to the even one. -/
def divEven (num den : Nat) : Nat :=
  let q := num / den
  let twice := 2 * (num % den)
  if twice < den then q
  else if den < twice then q + 1
  else if q % 2 = 0 then q else q + 1

/-- The least exponent, not below `minExponent`, that leaves the mantissa of `num / den` below
`2 ^ 53`. -/
def fitExponent (num den : Nat) : Int :=
  let guess : Int := (num.log2 : Int) - (den.log2 : Int) - 53
  let fits (e : Int) : Bool :=
    let (n, d) := scaleBy num den e
    decide (n < d * Nat.pow 2 53)
  let e := if fits guess then guess else guess + 1
  max e minExponent

/-- The double nearest to `num / den`, or none beyond the greatest one. -/
def round (negative : Bool) (num den : Nat) : Option Double :=
  if num = 0 then some (zero negative)
  else
    let e := fitExponent num den
    let (n, d) := scaleBy num den e
    let m := divEven n d
    let (m, e) := if m = Nat.pow 2 53 then (Nat.pow 2 52, e + 1) else (m, e)
    if e ≤ maxExponent then some ⟨negative, m, e⟩ else none

/-- Whether two doubles are equal as numbers; the two zeros are. -/
def sameNumber (a b : Double) : Bool :=
  a == b || (a.mantissa == 0 && b.mantissa == 0)

end Double

end DesignTokens.Decimal
