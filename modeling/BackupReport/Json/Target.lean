import BackupReport.Json.Skip

/-!
# Decoding into a given type

Decoders for the types that a record is made of.  Where something else stands, a scalar is read
to its end before it is refused, so that a fault inside it comes first; a list or object is
refused at its first byte.
-/

namespace BackupReport.Json

open Decoder

/-! ## Mismatches -/

/-- Refuses the value that starts at the next byte. -/
def refuseValue {α : Type} (wanted : Wanted) : Decoder α := do
  match ← peek with
  | none => refuseNext .expectedValue
  | some b =>
    match Lead.of b with
    | .null =>
      eat
      word restOfNull
      refuseHere (.mismatch .null wanted)
    | .yes =>
      eat
      word restOfTrue
      refuseHere (.mismatch (.boolean true) wanted)
    | .no =>
      eat
      word restOfFalse
      refuseHere (.mismatch (.boolean false) wanted)
    | .minus | .digit =>
      let n ← Number.decode
      refuseHere (.mismatch n.found wanted)
    | .quote =>
      eat
      let s ← Text.decode
      refuseHere (.mismatch (.string s) wanted)
    | .list => refuseHere (.mismatch .sequence wanted)
    | .object => refuseHere (.mismatch .map wanted)
    | .other => refuseNext .expectedValue

/-- Reads up to a value and decodes it as its first byte demands. -/
def onLead {α : Type} (decode : Lead → Decoder α) : Decoder α := do
  match ← gap with
  | none => refuseNext .endOfValue
  | some b => decode (Lead.of b)

/-! ## Scalars -/

/-- A number of which `accept` makes a value or says why not. -/
def number {α : Type} (wanted : Wanted) (accept : Number → Except Cause α) : Decoder α :=
  onLead fun
    | .minus | .digit => do
      match accept (← Number.decode) with
      | .ok a => pure a
      | .error cause => refuseHere cause
    | _ => refuseValue wanted

/-- A number as a signed word. -/
def Number.signed : Number → Except Cause Int64
  | .integer n => if n < UInt64.size / 2 then .ok (Int64.ofInt n) else .error (.unfit n .signed)
  | .floating x => .error (.mismatch (.floating x) .signed)

/-- A number as an unsigned word. -/
def Number.unsigned : Number → Except Cause UInt64
  | .integer n => if 0 ≤ n then .ok (UInt64.ofNat n.toNat) else .error (.unfit n .unsigned)
  | .floating x => .error (.mismatch (.floating x) .unsigned)

/-- A number as a double-precision number. -/
def Number.double : Number → Except Cause Binary64
  | .integer n => .ok (Binary64.ofInt n)
  | .floating x => .ok x

/-- A signed word. -/
def signed : Decoder Int64 := number .signed Number.signed

/-- An unsigned word. -/
def unsigned : Decoder UInt64 := number .unsigned Number.unsigned

/-- A double-precision number. -/
def double : Decoder Binary64 := number .floating Number.double

/-- A string. -/
def string : Decoder String :=
  onLead fun
    | .quote => do
      eat
      Text.decode
    | _ => refuseValue .string

/-- A truth value. -/
def boolean : Decoder Bool :=
  onLead fun
    | .yes => do
      eat
      word restOfTrue
      pure true
    | .no => do
      eat
      word restOfFalse
      pure false
    | _ => refuseValue .boolean

/-- The value `null`. -/
def unit : Decoder Unit :=
  onLead fun
    | .null => do
      eat
      word restOfNull
    | _ => refuseValue .unit

/-- A value that may be `null`. -/
def optional {α : Type} (decode : Decoder α) : Decoder (Option α) := do
  if (← gap).map Lead.of = some .null then
    eat
    word restOfNull
    pure none
  else some <$> decode

/-- A value for which `null` stands for the default. -/
def nullAsDefault {α : Type} [Inhabited α] (decode : Decoder α) : Decoder α :=
  (·.getD default) <$> optional decode

/-! ## Lists -/

/-- Reads up to the next entry of a list: whether there is one.  The closing bracket is not
taken. -/
def nextEntry (first : Bool) : Decoder Bool := do
  match ← gap with
  | none => refuseNext .endOfList
  | some b =>
    if b = 0x5D then pure false
    else if first then pure true
    else if b = 0x2C then
      eat
      match ← gap with
      | none => refuseNext .endOfValue
      | some c => if c = 0x5D then refuseNext .trailingComma else pure true
    else refuseNext .expectedCommaInList

/-- Takes the closing bracket of a list of which no more entries are wanted.  A failure of the
source behind a comma is not reported as such. -/
def closeList : Decoder Unit := do
  match ← gap with
  | none => refuseNext .endOfList
  | some b =>
    if b = 0x5D then eat
    else if b = 0x2C then
      eat
      let _ ← span isGap
      if (← glance) = some 0x5D then refuseNext .trailingComma
      else refuseNext .trailingCharacters
    else refuseNext .trailingCharacters

/-- Reads one more entry of a list, whose entries so far are given in reverse. -/
def entry {α : Type} (decode : Decoder α) (sofar : List α) :
    Decoder (Step (List α) (List α)) := do
  if ← nextEntry sofar.isEmpty then
    let a ← decode
    pure (.more (a :: sofar))
  else
    eat
    pure (.done sofar.reverse)

/-- The entries of a list, after its opening bracket. -/
def entries {α : Type} (decode : Decoder α) : Decoder (List α) := iterate (entry decode) []

/-- A list of values. -/
def list {α : Type} (decode : Decoder α) : Decoder (List α) :=
  onLead fun
    | .list => do
      eat
      entries decode
    | _ => refuseValue .sequence

end BackupReport.Json
