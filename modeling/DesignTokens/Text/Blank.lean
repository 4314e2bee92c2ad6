/-!
# Blank characters and trimming

The blank characters of text are those with the Unicode property `White_Space`. Trimming drops
them from both ends of a text.
-/

namespace DesignTokens.Text

/-- The Unicode property `White_Space`. -/
def isBlank (c : Char) : Bool :=
  let n := c.toNat
  (0x09 ≤ n && n ≤ 0x0D) || n == 0x20 || n == 0x85 || n == 0xA0 || n == 0x1680 ||
    (0x2000 ≤ n && n ≤ 0x200A) || n == 0x2028 || n == 0x2029 || n == 0x202F || n == 0x205F ||
    n == 0x3000

/-- Drops blanks from the front. -/
def trimStart (cs : List Char) : List Char :=
  cs.dropWhile isBlank

/-- Drops blanks from the back. -/
def trimEnd (cs : List Char) : List Char :=
  (cs.reverse.dropWhile isBlank).reverse

/-- Drops blanks from both ends. -/
def trimChars (cs : List Char) : List Char :=
  trimEnd (trimStart cs)

/-- Drops blanks from both ends of a string. -/
def trim (s : String) : String :=
  String.ofList (trimChars s.toList)

/-- Whether a string has no character but blanks. -/
def allBlank (s : String) : Bool :=
  s.toList.all isBlank

end DesignTokens.Text
