/-!
# Blank characters

The characters that separate words, in any script: the Unicode property White_Space.  Text is
trimmed of them at both ends before a number is read from it.
-/

namespace Batchflow.Text

/-- The 25 characters with the property White_Space. -/
def isBlank (c : Char) : Bool :=
  let n := c.toNat
  (9 ≤ n && n ≤ 13) || n == 0x20 || n == 0x85 || n == 0xA0 || n == 0x1680 ||
    (0x2000 ≤ n && n ≤ 0x200A) || n == 0x2028 || n == 0x2029 || n == 0x202F ||
    n == 0x205F || n == 0x3000

/-- What is left after the blanks in front. -/
def trimStart (cs : List Char) : List Char := cs.dropWhile isBlank

/-- What is left after the blanks at both ends. -/
def trim (cs : List Char) : List Char := (trimStart (trimStart cs).reverse).reverse

end Batchflow.Text
