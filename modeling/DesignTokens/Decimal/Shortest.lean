import DesignTokens.Decimal.Double

/-!
# Shortest decimal texts

The text of a double has the fewest digits that read back as the same double, and of those digits
the ones nearest to it. `Double.digits` finds them on the decimal grids of 1, 2, … 17 digits;
`Layout` says how they are laid out.
-/

namespace DesignTokens.Decimal

/-- The numbers that round to one double, as numerators over one denominator. -/
structure Interval where
  /-- The lower end. -/
  low : Nat
  /-- The double itself. -/
  value : Nat
  /-- The upper end. -/
  high : Nat
  /-- The common denominator. -/
  den : Nat
  /-- Whether the ends round to the double too. -/
  closed : Bool

namespace Interval

/-- Whether `num / den` rounds to the double. -/
def contains (i : Interval) (num den : Nat) : Bool :=
  let x := num * i.den
  if i.closed then i.low * den ≤ x && x ≤ i.high * den
  else i.low * den < x && x < i.high * den

end Interval

namespace Double

/-- The numbers that round to the magnitude of `d`. Below a power of two the grid of doubles is
twice as fine, so the lower half-gap is smaller there. -/
def interval (d : Double) : Interval :=
  let lowGap := if d.mantissa = Nat.pow 2 52 ∧ minExponent < d.exponent then 1 else 2
  let m := 4 * d.mantissa
  let up := if 0 ≤ d.exponent then Nat.pow 2 d.exponent.toNat else 1
  let down := if 0 ≤ d.exponent then 1 else Nat.pow 2 (-d.exponent).toNat
  { low := (m - lowGap) * up, value := m * up, high := (m + 2) * up, den := 4 * down,
    closed := d.mantissa % 2 == 0 }

/-- The decimal exponent of `num / den`: the greatest `k` with `10 ^ k ≤ num / den`. The binary
lengths of the two give a guess that is at most a few too small. -/
def decimalExponent (num den : Nat) : Int :=
  let reaches (k : Int) : Bool :=
    if 0 ≤ k then den * Nat.pow 10 k.toNat ≤ num else den ≤ num * Nat.pow 10 (-k).toNat
  let guess : Int := (((num.log2 : Int) - (den.log2 : Int) - 1) * 30102) / 100000 - 1
  let step (k : Int) : Int := if reaches (k + 1) then k + 1 else k
  step (step (step (step guess)))

/-- The digits of a grid point, as `digits · 10 ^ exponent`. -/
structure Digits where
  /-- The digits read as a number. -/
  digits : Nat
  /-- The place of the last digit. -/
  exponent : Int
deriving DecidableEq, Repr

/-- The point of the grid of multiples of `10 ^ exponent` that rounds to the double, the nearer
of the value's two neighbours, if one does. A tie goes to the even one. -/
def gridPoint (i : Interval) (exponent : Int) : Option Digits :=
  let (num, den) :=
    if 0 ≤ exponent then (i.value, i.den * Nat.pow 10 exponent.toNat)
    else (i.value * Nat.pow 10 (-exponent).toNat, i.den)
  let below := num / den
  let rest := 2 * (num % den)
  let hit (n : Nat) : Bool :=
    if 0 ≤ exponent then i.contains (n * Nat.pow 10 exponent.toNat) 1
    else i.contains n (Nat.pow 10 (-exponent).toNat)
  let pick (n : Nat) : Option Digits := some ⟨n, exponent⟩
  match hit below, hit (below + 1) with
  | true, true =>
    if rest < den then pick below
    else if den < rest then pick (below + 1)
    else if below % 2 = 0 then pick below else pick (below + 1)
  | true, false => pick below
  | false, true => pick (below + 1)
  | false, false => none

/-- The first grid, from the coarsest to the one of 17 digits, that has a point for the double. -/
def firstGrid (i : Interval) (top : Int) : (count : Nat) → (places : Nat) → Option Digits
  | 0, _ => none
  | count + 1, places =>
    match gridPoint i (top - places) with
    | some p => some p
    | none => firstGrid i top count (places + 1)

/-- Drops zeros from the end of the digits. -/
def stripZeros : (fuel : Nat) → Digits → Digits
  | 0, p => p
  | fuel + 1, p =>
    if p.digits ≠ 0 ∧ p.digits % 10 = 0 then stripZeros fuel ⟨p.digits / 10, p.exponent + 1⟩ else p

/-- The shortest digits of a double that is not zero. -/
def shortest (d : Double) : Digits :=
  let i := d.interval
  let top := decimalExponent i.value i.den
  match firstGrid i top 17 0 with
  | some p => stripZeros 20 p
  | none => ⟨0, 0⟩

end Double

/-- How the digits of a number are laid out. -/
structure Layout where
  /-- The least decimal exponent that is written positionally. -/
  positionalFrom : Int
  /-- The greatest decimal exponent that is written positionally. -/
  positionalTo : Int
  /-- Whether a positive exponent carries a sign. -/
  plusSign : Bool

namespace Layout

/-- The text of the digits `ds` of a number with decimal exponent `e`. -/
def digits (layout : Layout) (ds : List Char) (e : Int) : List Char :=
  if layout.positionalFrom ≤ e ∧ e ≤ layout.positionalTo then
    if e < 0 then
      ['0', '.'] ++ List.replicate ((-e).toNat - 1) '0' ++ ds
    else
      let whole := e.toNat + 1
      if ds.length ≤ whole then
        ds ++ List.replicate (whole - ds.length) '0' ++ ['.', '0']
      else ds.take whole ++ '.' :: ds.drop whole
  else
    let fraction := match ds.drop 1 with
      | [] => []
      | rest => '.' :: rest
    let sign := if e < 0 then ['-'] else if layout.plusSign then ['+'] else []
    ds.take 1 ++ fraction ++ 'e' :: sign ++ Nat.toDigits 10 e.natAbs

/-- The text of a double: its shortest digits, with `.0` when it is written positionally and is
integral. -/
def text (layout : Layout) (d : Double) : String :=
  let sign := if d.negative then ['-'] else []
  let body :=
    if d.mantissa = 0 then ['0', '.', '0']
    else
      let p := d.shortest
      let ds := Nat.toDigits 10 p.digits
      layout.digits ds (p.exponent + ds.length - 1)
  String.ofList (sign ++ body)

end Layout

end DesignTokens.Decimal
