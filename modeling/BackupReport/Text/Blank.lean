/-!
# Blank characters

A character is blank if Unicode gives it the property `White_Space`.  Texts are trimmed of blank
characters at their ends.
-/

namespace BackupReport

/-- Whether a character has the Unicode property `White_Space`. -/
def isBlank (c : Char) : Bool :=
  let n := c.toNat
  (0x09 ≤ n && n ≤ 0x0D) || n == 0x20 || n == 0x85 || n == 0xA0 || n == 0x1680 ||
    (0x2000 ≤ n && n ≤ 0x200A) || n == 0x2028 || n == 0x2029 || n == 0x202F || n == 0x205F ||
    n == 0x3000

/-- A text without the blank characters at its end. -/
def trimEnd (cs : List Char) : List Char := (cs.reverse.dropWhile isBlank).reverse

/-- A text without the blank characters at its start and end. -/
def trim (cs : List Char) : List Char := trimEnd (cs.dropWhile isBlank)

end BackupReport
