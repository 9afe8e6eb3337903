import BackupReport.Json.Target

/-!
# Objects and records

A record is decoded from an object, by the names of its fields in any order, or from a list, by
their places.  A field that is missing keeps its default, a member that is no field is passed
over, and a field must not occur twice.
-/

namespace BackupReport.Json

open Decoder

/-! ## Members -/

/-- Reads up to the key of the next member of an object and takes its quote: whether there is one.
The closing brace is not taken. -/
def nextMember (first : Bool) : Decoder Bool := do
  match ← gap with
  | none => refuseNext .endOfObject
  | some b =>
    if b = 0x7D then pure false
    else if first then
      if b = 0x22 then
        eat
        pure true
      else refuseNext .keyNotString
    else if b = 0x2C then
      eat
      match ← gap with
      | none => refuseNext .endOfValue
      | some c =>
        if c = 0x22 then
          eat
          pure true
        else if c = 0x7D then refuseNext .trailingComma
        else refuseNext .keyNotString
    else refuseNext .expectedCommaInObject

/-- Takes the colon between a key and its value. -/
def colon : Decoder Unit := do
  match ← gap with
  | none => refuseNext .endOfObject
  | some b => if b = 0x3A then eat else refuseNext .expectedColon

/-! ## Records -/

/-- A field of a record: its name, and a decoder that says how its value changes the record. -/
structure Field (ρ : Type) where
  name : String
  decode : Decoder (ρ → ρ)

/-- A field that is decoded on its own and then set. -/
def Field.of {ρ α : Type} (name : String) (decode : Decoder α) (set : α → ρ → ρ) : Field ρ :=
  ⟨name, set <$> decode⟩

/-- Refuses a field that occurs twice.  The fault lies behind the closing brace if that is next. -/
def refuseRepeated {α : Type} (name : String) : Decoder α := do
  let _ ← span isGap
  if (← glance) = some 0x7D then eat
  refuseHere (.repeatedField name)

/-- An object under way: the fields that have occurred and the record so far. -/
structure Progress (ρ : Type) where
  first : Bool
  seen : List String
  record : ρ

/-- Reads one more member of an object. -/
def member {ρ : Type} (fields : List (Field ρ)) (p : Progress ρ) :
    Decoder (Step (Progress ρ) ρ) := do
  if ← nextMember p.first then
    let key ← Text.decode
    match fields.find? (·.name == key) with
    | some field =>
      if p.seen.contains key then refuseRepeated key
      else
        colon
        let change ← field.decode
        pure (.more ⟨false, key :: p.seen, change p.record⟩)
    | none =>
      colon
      skipValue
      pure (.more ⟨false, p.seen, p.record⟩)
  else
    eat
    pure (.done p.record)

/-- A record from the members of an object, after its opening brace. -/
def byName {ρ : Type} (fields : List (Field ρ)) (record : ρ) : Decoder ρ :=
  iterate (member fields) ⟨true, [], record⟩

/-- A record from the entries of a list, after its opening bracket. -/
def byPlace {ρ : Type} : List (Field ρ) → Bool → ρ → Decoder ρ
  | [], _, record => do
    closeList
    pure record
  | field :: later, first, record => do
    if ← nextEntry first then
      let change ← field.decode
      byPlace later false (change record)
    else
      eat
      pure record

/-- A record with the given fields; `record` holds the defaults. -/
def record {ρ : Type} (name : String) (fields : List (Field ρ)) (record : ρ) : Decoder ρ :=
  onLead fun
    | .object => do
      eat
      byName fields record
    | .list => do
      eat
      byPlace fields true record
    | _ => refuseValue (.record name)

/-! ## Whole texts -/

/-- Decodes a text that holds one value and nothing else. -/
def decodeWhole {α : Type} (decode : Decoder α) (bytes : List UInt8) : Except Fault α :=
  Except.map Prod.fst <| (do
    let a ← decode
    match ← gap with
    | none => pure a
    | some _ => refuseNext .trailingCharacters : Decoder α).run (.ofText bytes)

end BackupReport.Json
