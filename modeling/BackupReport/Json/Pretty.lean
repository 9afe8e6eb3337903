import BackupReport.Json.Tree

/-!
# Writing a JSON text

A tree is written with one entry or member on a line, indented by two spaces for each level, and
with one space after the colon of a member.  An empty list or object takes no line of its own.
-/

namespace BackupReport.Json.Pretty

/-! ## Scalars -/

/-- The written form of a character inside a string. -/
def escape (c : Char) : List Char :=
  if c = '"' then ['\\', '"']
  else if c = '\\' then ['\\', '\\']
  else if c = '\x08' then ['\\', 'b']
  else if c = '\x0C' then ['\\', 'f']
  else if c = '\n' then ['\\', 'n']
  else if c = '\r' then ['\\', 'r']
  else if c = '\t' then ['\\', 't']
  else if c.toNat < 0x20 then
    ['\\', 'u', '0', '0', Nat.digitChar (c.toNat / 16), Nat.digitChar (c.toNat % 16)]
  else [c]

/-- A string between quotes. -/
def string (s : String) : List Char := '"' :: s.toList.flatMap escape ++ ['"']

/-- An integer in decimal digits. -/
def integer : Int → List Char
  | .ofNat n => Nat.toDigits 10 n
  | .negSucc n => '-' :: Nat.toDigits 10 (n + 1)

/-- A number. -/
def number : Number → List Char
  | .integer n => integer n
  | .floating x => x.text

/-! ## Lists and objects -/

/-- The start of a line at a level. -/
def line (level : Nat) : List Char := '\n' :: List.replicate (2 * level) ' '

mutual

/-- The written form of a value at a level. -/
def value (level : Nat) : Tree → List Char
  | .null => "null".toList
  | .boolean true => "true".toList
  | .boolean false => "false".toList
  | .number n => number n
  | .string s => string s
  | .list [] => ['[', ']']
  | .list (entry :: later) =>
    '[' :: line (level + 1) ++ value (level + 1) entry ++ entries (level + 1) later ++
      line level ++ [']']
  | .object [] => ['\x7b', '\x7d']
  | .object ((key, entry) :: later) =>
    '\x7b' :: line (level + 1) ++ string key ++ [':', ' '] ++ value (level + 1) entry ++
      members (level + 1) later ++ line level ++ ['\x7d']

/-- The written form of the later entries of a list. -/
def entries (level : Nat) : List Tree → List Char
  | [] => []
  | entry :: later => ',' :: line level ++ value level entry ++ entries level later

/-- The written form of the later members of an object. -/
def members (level : Nat) : List (String × Tree) → List Char
  | [] => []
  | (key, entry) :: later =>
    ',' :: line level ++ string key ++ [':', ' '] ++ value level entry ++ members level later

end

/-- The text of a value. -/
def text (t : Tree) : List Char := value 0 t

end BackupReport.Json.Pretty
