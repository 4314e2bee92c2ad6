import DesignTokens.Decimal.Double

/-!
# Doubles from decimal numerals

`nearest` reads `significand · 10 ^ exponent` as the nearest double.
-/

namespace DesignTokens.Decimal

/-- The double nearest to `± significand · 10 ^ exponent`; none beyond the greatest double. -/
def nearest (negative : Bool) (significand : Nat) (exponent : Int) : Option Double :=
  if significand = 0 then some (Double.zero negative)
  else if 0 ≤ exponent then
    -- From 10^400 on every positive numeral is beyond the greatest double.
    if 400 < exponent then none
    else Double.round negative (significand * Nat.pow 10 exponent.toNat) 1
  else
    -- A numeral of `n` digits is below 10^n; far below the least double it is zero.
    if exponent + (Nat.toDigits 10 significand).length < -400 then some (Double.zero negative)
    else Double.round negative significand (Nat.pow 10 (-exponent).toNat)

end DesignTokens.Decimal
