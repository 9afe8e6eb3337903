import BackupReport.Json.Decoder

/-!
# Numbers in a JSON text

A number is first read as a numeral, its digits apart by their place, and then given a value.  An
integer that fits 64 bits is kept as such; every other number is a double-precision number.  The
digits that do not fit 64 bits count only by their number, and `-0` is a double-precision number.
-/

namespace BackupReport.Json

open Decoder

/-! ## Numerals -/

/-- A number as it is written: its sign, the digits before the point, those after it if there is
a point, and the exponent if there is one. -/
structure Numeral where
  negative : Bool
  whole : List UInt8
  fraction : Option (List UInt8)
  exponent : Option Int

/-- The value of a digit. -/
def digitValue (b : UInt8) : Nat := b.toNat - 0x30

/-- The value of a row of digits. -/
def digitsValue (digits : List UInt8) : Nat :=
  digits.foldl (fun n b => n * 10 + digitValue b) 0

namespace Numeral

/-- The cause given where the text ends inside a numeral. -/
def unfinished : Use → Cause
  | .decoded => .endOfValue
  | .skipped => .invalidNumber

/-- The digits before the point.  A zero stands alone. -/
def wholeDigits (use : Use) : Decoder (List UInt8) := do
  match ← next with
  | none => refuseHere (unfinished use)
  | some b =>
    if b = 0x30 then
      match ← peek with
      | some d => if isDigit d then refuseNext .invalidNumber else pure [b]
      | none => pure [b]
    else if isDigit b then
      let more ← span isDigit
      pure (b :: more)
    else refuseHere .invalidNumber

/-- The point and the digits after it, if there is a point. -/
def fractionDigits (use : Use) : Decoder (Option (List UInt8)) := do
  if (← peek) = some 0x2E then
    eat
    let digits ← span isDigit
    let following ← peek
    if digits.isEmpty then
      match following with
      | none => refuseNext (unfinished use)
      | some _ => refuseNext .invalidNumber
    else pure (some digits)
  else pure none

/-- The greatest exponent that is counted. -/
def exponentLimit : Nat := 2147483647

/-- Reads one more digit of an exponent.  If `bounded`, an exponent above the limit is refused at
the digit that passes it. -/
def exponentDigit (bounded : Bool) (n : Nat) : Decoder (Step Nat Nat) := do
  match ← peek with
  | none => pure (.done n)
  | some b =>
    if isDigit b then
      eat
      let n' := n * 10 + digitValue b
      if bounded ∧ exponentLimit < n' then refuseHere .numberOutOfRange
      else pure (.more n')
    else pure (.done n)

/-- The sign of an exponent: whether it is a minus. -/
def exponentSign : Decoder Bool := do
  match ← peek with
  | some b =>
    if b = 0x2B then
      eat
      pure false
    else if b = 0x2D then
      eat
      pure true
    else pure false
  | none => pure false

/-- The exponent, if there is one.  `nonzero` says that some digit before it is not zero. -/
def exponentPart (use : Use) (nonzero : Bool) : Decoder (Option Int) := do
  match ← peek with
  | some b =>
    if b = 0x65 ∨ b = 0x45 then
      eat
      let negative ← exponentSign
      match ← next with
      | none => refuseHere (unfinished use)
      | some d =>
        if isDigit d then
          let bounded := use == .decoded && nonzero && !negative
          let n ← iterate (exponentDigit bounded) (digitValue d)
          pure (some (if negative then -(n : Int) else n))
        else refuseHere .invalidNumber
    else pure none
  | none => pure none

/-- Reads a numeral after its sign. -/
def scan (use : Use) (negative : Bool) : Decoder Numeral := do
  let whole ← wholeDigits use
  let fraction ← fractionDigits use
  let nonzero := (whole ++ fraction.getD []).any (· != 0x30)
  let exponent ← exponentPart use nonzero
  pure ⟨negative, whole, fraction, exponent⟩

/-- Passes over a numeral, with its sign if there is one. -/
def skip : Decoder Unit := do
  if (← peek) = some 0x2D then eat
  let _ ← scan .skipped false

end Numeral

/-! ## Values -/

/-- The value of a number: an integer of 64 bits, with or without sign, or a double-precision
number. -/
inductive Number where
  | integer (n : Int)
  | floating (x : Binary64)
deriving DecidableEq

/-- A significand of 64 bits under construction, with the power of ten that it is to be taken
times.  It is full once a digit did not fit. -/
structure Significand where
  value : Nat
  exponent : Int
  full : Bool

namespace Significand

/-- Appends a digit before the point; one that does not fit is counted in the exponent. -/
def pushWhole (s : Significand) (b : UInt8) : Significand :=
  let value := s.value * 10 + digitValue b
  if s.full ∨ UInt64.size ≤ value then { s with exponent := s.exponent + 1, full := true }
  else { s with value := value }

/-- Appends a digit after the point; one that does not fit is dropped, with all after it. -/
def pushFraction (s : Significand) (b : UInt8) : Significand :=
  let value := s.value * 10 + digitValue b
  if s.full ∨ UInt64.size ≤ value then { s with full := true }
  else { s with value := value, exponent := s.exponent - 1 }

end Significand

namespace Numeral

/-- The significand of a numeral and the power of ten that it is to be taken times. -/
def significand (m : Numeral) : Significand :=
  let whole := m.whole.foldl Significand.pushWhole ⟨0, 0, false⟩
  let all := (m.fraction.getD []).foldl Significand.pushFraction { whole with full := false }
  { all with exponent := all.exponent + m.exponent.getD 0 }

/-- The integer of 64 bits that a numeral writes. -/
def integer? (m : Numeral) : Option Int :=
  let n := digitsValue m.whole
  if m.fraction.isSome ∨ m.exponent.isSome then none
  else if m.negative then if 0 < n ∧ n ≤ UInt64.size / 2 then some (-(n : Int)) else none
  else if n < UInt64.size then some n else none

/-- The value of a numeral, unless it is too large. -/
def number? (m : Numeral) : Option Number :=
  match m.integer? with
  | some n => some (.integer n)
  | none =>
    let s := m.significand
    (Binary64.ofScaled? m.negative s.value s.exponent).map .floating

end Numeral

namespace Number

/-- Reads a number after its sign. -/
def decodeUnsigned (negative : Bool) : Decoder Number := do
  match (← Numeral.scan .decoded negative).number? with
  | some n => pure n
  | none => refuseHere .numberOutOfRange

/-- Reads a number. -/
def decode : Decoder Number := do
  if (← peek) = some 0x2D then
    eat
    decodeUnsigned true
  else decodeUnsigned false

/-- A number in the words of an error message. -/
def found : Number → Found
  | .integer n => .integer n
  | .floating x => .floating x

end Number

end BackupReport.Json
