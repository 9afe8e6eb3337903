import BackupReport.Binary64.Shortest
import BackupReport.Text.Quoted

/-!
# Faults in a JSON text

Why a text is refused, and where.  A fault is a cause at a position, or the failure of the source
that the text is read from.  The wording of every cause is in `Cause.message`.
-/

namespace BackupReport.Json

/-! ## Positions -/

/-- A place in a text: the line, counted from one, and the bytes passed in that line. -/
structure Position where
  line : Nat
  column : Nat
deriving DecidableEq

namespace Position

/-- The place before the first byte. -/
def start : Position := ⟨1, 0⟩

/-- The place after one more byte. -/
def advance (p : Position) (b : UInt8) : Position :=
  if b = 0x0A then ⟨p.line + 1, 0⟩ else ⟨p.line, p.column + 1⟩

/-- The place some bytes earlier in the same line. -/
def retreat (p : Position) (n : Nat) : Position := ⟨p.line, p.column - n⟩

end Position

/-! ## Causes -/

/-- What stands where something else was wanted. -/
inductive Found where
  | null
  | boolean (b : Bool)
  | integer (n : Int)
  | floating (x : Binary64)
  | string (s : String)
  | sequence
  | map
deriving DecidableEq

/-- What was wanted. -/
inductive Wanted where
  | signed
  | unsigned
  | floating
  | string
  | boolean
  | sequence
  | unit
  | record (name : String)
deriving DecidableEq

/-- Why a text is refused. -/
inductive Cause where
  | endOfList
  | endOfObject
  | endOfString
  | endOfValue
  | expectedColon
  | expectedCommaInList
  | expectedCommaInObject
  | expectedWord
  | expectedValue
  | invalidEscape
  | invalidNumber
  | numberOutOfRange
  | invalidCodePoint
  | controlCharacter
  | keyNotString
  | loneSurrogate
  | unfinishedPair
  | trailingComma
  | trailingCharacters
  | tooDeep
  | mismatch (found : Found) (wanted : Wanted)
  | unfit (n : Int) (wanted : Wanted)
  | unknownVariant (name : String)
  | repeatedField (name : String)
deriving DecidableEq

/-! ## Wording -/

/-- A value in the words of an error message. -/
def Found.describe : Found → String
  | .null => "null"
  | .boolean b => "boolean `" ++ (if b then "true" else "false") ++ "`"
  | .integer n => "integer `" ++ toString n ++ "`"
  | .floating x => "floating point `" ++ String.ofList x.text ++ "`"
  | .string s => "string " ++ String.ofList (Quoted.text s.toList)
  | .sequence => "sequence"
  | .map => "map"

/-- A wish in the words of an error message. -/
def Wanted.describe : Wanted → String
  | .signed => "i64"
  | .unsigned => "u64"
  | .floating => "f64"
  | .string => "a string"
  | .boolean => "a boolean"
  | .sequence => "a sequence"
  | .unit => "unit"
  | .record name => "struct " ++ name

/-- The wording of a cause. -/
def Cause.message : Cause → String
  | .endOfList => "EOF while parsing a list"
  | .endOfObject => "EOF while parsing an object"
  | .endOfString => "EOF while parsing a string"
  | .endOfValue => "EOF while parsing a value"
  | .expectedColon => "expected `:`"
  | .expectedCommaInList => "expected `,` or `]`"
  | .expectedCommaInObject => "expected `,` or `\x7d`"
  | .expectedWord => "expected ident"
  | .expectedValue => "expected value"
  | .invalidEscape => "invalid escape"
  | .invalidNumber => "invalid number"
  | .numberOutOfRange => "number out of range"
  | .invalidCodePoint => "invalid unicode code point"
  | .controlCharacter =>
    "control character (\\u0000-\\u001F) found while parsing a string"
  | .keyNotString => "key must be a string"
  | .loneSurrogate => "lone leading surrogate in hex escape"
  | .unfinishedPair => "unexpected end of hex escape"
  | .trailingComma => "trailing comma"
  | .trailingCharacters => "trailing characters"
  | .tooDeep => "recursion limit exceeded"
  | .mismatch found wanted =>
    "invalid type: " ++ found.describe ++ ", expected " ++ wanted.describe
  | .unfit n wanted =>
    "invalid value: " ++ (Found.integer n).describe ++ ", expected " ++ wanted.describe
  | .unknownVariant name =>
    "unknown variant `" ++ name ++ "`, expected `Succeeded` or `Failed`"
  | .repeatedField name => "duplicate field `" ++ name ++ "`"

/-! ## Faults -/

/-- What ends a reading: the source failed for a reason of its own, or the text is refused at a
position. -/
inductive Fault where
  | sourceFailed (reason : String)
  | refused (cause : Cause) (position : Position)
deriving DecidableEq

end BackupReport.Json
