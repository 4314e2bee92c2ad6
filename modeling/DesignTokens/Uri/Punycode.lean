/-!
# International labels

A label of a host name with characters outside of ASCII is written with ASCII characters alone: the
ASCII characters of the label come first, then the places of the others, in the order of their code
points, as numbers with a variable number of digits.
-/

namespace DesignTokens.Uri

/-- The digit of a number below thirty-six. -/
def labelDigit (d : Nat) : Char :=
  if d < 26 then Char.ofNat (97 + d) else Char.ofNat (22 + d)

/-- The number below which the digit at place `k` is the last one. -/
def digitThreshold (bias k : Nat) : Nat :=
  if k ≤ bias then 1 else if bias + 26 ≤ k then 26 else k - bias

/-- The digits of a number from place `k` on. The number shrinks with each digit, so that it is
enough fuel itself. -/
def labelDigits (bias : Nat) : (fuel k q : Nat) → List Char
  | 0, _, q => [labelDigit q]
  | fuel + 1, k, q =>
    let t := digitThreshold bias k
    if q < t then [labelDigit q]
    else labelDigit (t + (q - t) % (36 - t)) :: labelDigits bias fuel (k + 36) ((q - t) / (36 - t))

/-- Divides until the number is small, counting places. -/
def settleBias : (fuel delta k : Nat) → Nat
  | 0, delta, k => k + 36 * delta / (delta + 38)
  | fuel + 1, delta, k =>
    if 455 < delta then settleBias fuel (delta / 35) (k + 36) else k + 36 * delta / (delta + 38)

/-- The bias after a number was written. -/
def nextBias (delta written : Nat) (first : Bool) : Nat :=
  let d := if first then delta / 700 else delta / 2
  settleBias d (d + d / written) 0

/-- A label while it is written. -/
structure LabelWriter where
  out : List Char
  delta : Nat := 0
  bias : Nat := 72
  /-- How many characters are written. -/
  written : Nat
  /-- Whether a number was written. -/
  started : Bool := false

/-- Passes over one character of the label while those with code point `m` are written. -/
def LabelWriter.pass (m : Nat) (w : LabelWriter) (c : Char) : LabelWriter :=
  if c.toNat < m then { w with delta := w.delta + 1 }
  else if c.toNat = m then
    { out := w.out ++ labelDigits w.bias w.delta 36 w.delta
      delta := 0
      bias := nextBias w.delta (w.written + 1) (!w.started)
      written := w.written + 1
      started := true }
  else w

/-- Puts a number into a sorted list, once. -/
def insertOnce (n : Nat) : List Nat → List Nat
  | [] => [n]
  | m :: rest =>
    if n < m then n :: m :: rest else if n = m then m :: rest else m :: insertOnce n rest

/-- Writes the characters with the code points in the list, given from the smallest on; `n` is the
smallest code point that was not written. -/
def writePoints (label : List Char) : (n : Nat) → List Nat → LabelWriter → LabelWriter
  | _, [], w => w
  | n, m :: points, w =>
    let w := label.foldl (LabelWriter.pass m)
      { w with delta := w.delta + (m - n) * (w.written + 1) }
    writePoints label (m + 1) points { w with delta := w.delta + 1 }

/-- The ASCII form of a label. -/
def asciiLabel (label : List Char) : List Char :=
  if label.all fun c => c.toNat < 0x80 then label
  else
    let plain := label.filter fun c => c.toNat < 0x80
    let points :=
      (label.filter fun c => 0x80 ≤ c.toNat).foldl (fun ps c => insertOnce c.toNat ps) []
    let start := if plain.isEmpty then [] else plain ++ ['-']
    ['x', 'n', '-', '-'] ++
      (writePoints label 0x80 points { out := start, written := plain.length }).out

end DesignTokens.Uri
