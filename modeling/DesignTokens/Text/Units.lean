/-!
# UTF-8 bytes and UTF-16 units

Editors count columns in UTF-16 code units: a character outside the basic plane takes two of
them. Readers of data formats count UTF-8 bytes.
-/

namespace DesignTokens.Text

/-- The number of UTF-16 units of a character. -/
def unitWidth (c : Char) : Nat :=
  if c.toNat < 0x10000 then 1 else 2

/-- The number of UTF-16 units of a text. -/
def units : List Char → Nat
  | [] => 0
  | c :: cs => unitWidth c + units cs

/-- The number of UTF-8 bytes of a text. -/
def bytes : List Char → Nat
  | [] => 0
  | c :: cs => c.utf8Size + bytes cs

/-- The UTF-8 bytes of a character. -/
def charBytes (c : Char) : List UInt8 :=
  (String.singleton c).toUTF8.data.toList

/-- The number of characters that begin before column `column`, at most all of them. A column in
the middle of a two-unit character counts that character whole. -/
def charsBefore : (column : Nat) → List Char → Nat
  | 0, _ => 0
  | _ + 1, [] => 0
  | column + 1, c :: cs => 1 + charsBefore (column + 1 - unitWidth c) cs

@[simp] theorem units_nil : units [] = 0 := rfl

@[simp] theorem units_cons (c : Char) (cs : List Char) :
    units (c :: cs) = unitWidth c + units cs := rfl

/-- Units add up. -/
@[simp] theorem units_append (a b : List Char) : units (a ++ b) = units a + units b := by
  induction a with
  | nil => simp
  | cons c cs ih => simp [ih, Nat.add_assoc]

/-- Bytes add up. -/
theorem bytes_append (a b : List Char) : bytes (a ++ b) = bytes a + bytes b := by
  induction a with
  | nil => simp [bytes]
  | cons c cs ih => simp [bytes, ih, Nat.add_assoc]

/-- A character takes at least one unit. -/
theorem unitWidth_pos (c : Char) : 0 < unitWidth c := by
  rw [unitWidth]
  split <;> decide

/-- A character has no more units than bytes. -/
theorem unitWidth_le_utf8Size (c : Char) : unitWidth c ≤ c.utf8Size := by
  have hnat : c.toNat = c.val.toNat := rfl
  rw [unitWidth, Char.utf8Size]
  simp only [UInt32.le_iff_toNat_le, UInt32.toNat_ofNatLT]
  repeat' split
  all_goals omega

/-- A text has no more UTF-16 units than bytes. -/
theorem units_le_bytes (cs : List Char) : units cs ≤ bytes cs := by
  induction cs with
  | nil => exact Nat.le_refl 0
  | cons c cs ih =>
    have hc := unitWidth_le_utf8Size c
    rw [units, bytes]
    omega

/-- A text has no more characters than bytes. -/
theorem length_le_bytes (cs : List Char) : cs.length ≤ bytes cs := by
  induction cs with
  | nil => exact Nat.le_refl 0
  | cons c cs ih =>
    have hc := c.utf8Size_pos
    rw [List.length_cons, bytes]
    omega

/-- A part of a text has no more units than the text. -/
theorem units_le_of_sublist {a b : List Char} (h : a.Sublist b) : units a ≤ units b := by
  induction h with
  | slnil => exact Nat.le_refl 0
  | cons c _ ih =>
    rw [units]
    omega
  | cons_cons c _ ih =>
    rw [units, units]
    omega

end DesignTokens.Text
