/-!
# Lines of a document

A line ends after a line feed, a carriage return or both, a vertical tab, a form feed, or one of the
line and paragraph separators of Unicode. Each line holds its own ending, and a text that ends with
one has an empty line after it.
-/

namespace DesignTokens.Text

/-- Whether a character ends a line. -/
def isLineBreak (c : Char) : Bool :=
  let n := c.toNat
  (0x0A ≤ n && n ≤ 0x0D) || n == 0x85 || n == 0x2028 || n == 0x2029

/-- Puts a character at the front of the first line. -/
def consFirst (c : Char) : List (List Char) → List (List Char)
  | [] => [[c]]
  | line :: rest => (c :: line) :: rest

/-- The lines of a text. -/
def lines : List Char → List (List Char)
  | [] => [[]]
  | c :: cs =>
    if c = '\r' ∧ cs.head? = some '\n' then consFirst c (lines cs)
    else if isLineBreak c then [c] :: lines cs
    else consFirst c (lines cs)

theorem flatten_consFirst (c : Char) (ls : List (List Char)) :
    (consFirst c ls).flatten = c :: ls.flatten := by
  cases ls <;> simp [consFirst]

/-- The lines make up the text. -/
theorem flatten_lines (cs : List Char) : (lines cs).flatten = cs := by
  induction cs with
  | nil => rfl
  | cons c cs ih =>
    simp only [lines]
    split
    · rw [flatten_consFirst, ih]
    · split
      · simp [ih]
      · rw [flatten_consFirst, ih]

/-- Every line but the first begins behind a character. -/
theorem length_lines_le (cs : List Char) : (lines cs).length ≤ cs.length + 1 := by
  have hfirst : ∀ c ls, (consFirst c ls).length ≤ ls.length + 1 := by
    intro c ls
    cases ls <;> simp [consFirst]
  induction cs with
  | nil => exact Nat.le_refl 1
  | cons c cs ih =>
    have hrest := hfirst c (lines cs)
    simp only [lines]
    split
    · exact Nat.le_trans hrest (Nat.succ_le_succ ih)
    · split
      · exact Nat.succ_le_succ ih
      · exact Nat.le_trans hrest (Nat.succ_le_succ ih)

end DesignTokens.Text
