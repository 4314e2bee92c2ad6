/-!
# Similar words

Two words are the more similar the more characters they share, at about the same places and in the
same order. The measure is a third of the sum of three ratios: the shared characters in each of the
two words, and those of them that are in order.
-/

namespace DesignTokens.CommandLine

/-- A ratio of natural numbers. -/
structure Ratio where
  num : Nat
  den : Nat
deriving DecidableEq, Repr

/-- Whether a ratio is less than another. -/
def Ratio.lt (a b : Ratio) : Bool :=
  a.num * b.den < b.num * a.den

/-- The places of the first word that find a partner in the second, each with the partner's place.
A partner is the first free place with the same character in the window around the place. -/
def partners (window : Nat) (word : Array Char) :
    (place : Nat) → (taken : List Nat) → List Char → List (Nat × Nat)
  | _, _, [] => []
  | place, taken, c :: cs =>
    let low := place - window
    let high := min word.size (place + window + 1)
    match (List.range' low (high - low)).find? fun j => word[j]? = some c && !taken.contains j with
    | some j => (place, j) :: partners window word (place + 1) (j :: taken) cs
    | none => partners window word (place + 1) taken cs

/-- The similarity of two words. -/
def similarity (a b : List Char) : Ratio :=
  if a.isEmpty && b.isEmpty then ⟨1, 1⟩
  else
    let window := max a.length b.length / 2 - 1
    let pairs := partners window b.toArray 0 [] a
    let m := pairs.length
    if m = 0 then ⟨0, 1⟩
    else
      let left := pairs.map fun p => a[p.1]?
      let right := ((pairs.map Prod.snd).mergeSort (· ≤ ·)).map fun j => b[j]?
      let moved := ((left.zip right).filter fun p => p.1 ≠ p.2).length / 2
      -- the sum of `m / |a|`, `m / |b|` and `(m - moved) / m`, over three
      ⟨m * m * b.length + m * m * a.length + (m - moved) * a.length * b.length,
        3 * m * a.length * b.length⟩

/-- Words are similar from here on. -/
def similarFrom : Ratio := ⟨7, 10⟩

/-- The most similar of some words, the last of several, if it is similar enough. -/
def mostSimilar? (word : String) (others : List String) : Option String :=
  let score (w : String) := similarity word.toList w.toList
  others.foldl (fun best w =>
    if !similarFrom.lt (score w) then best
    else
      match best with
      | none => some w
      | some b => if (score w).lt (score b) then some b else some w) none

end DesignTokens.CommandLine
