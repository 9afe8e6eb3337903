import BackupReport.Text.Invisible

/-!
# Quoted text

A text inside an error message stands between double quotes.  The quote, the backslash and the
commonest controls are written with a backslash, and every other character without a visible form
as its code point in hexadecimal digits.
-/

namespace BackupReport.Quoted

/-- The written form of one character. -/
def escape (c : Char) : List Char :=
  if c = '\x00' then ['\\', '0']
  else if c = '\t' then ['\\', 't']
  else if c = '\r' then ['\\', 'r']
  else if c = '\n' then ['\\', 'n']
  else if c = '"' then ['\\', '"']
  else if c = '\\' then ['\\', '\\']
  else if isInvisible c then
    ['\\', 'u', '\x7b'] ++ Nat.toDigits 16 c.toNat ++ ['\x7d']
  else [c]

/-- The quoted form of a text. -/
def text (cs : List Char) : List Char := '"' :: cs.flatMap escape ++ ['"']

end BackupReport.Quoted
