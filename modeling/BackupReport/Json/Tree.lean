import BackupReport.Json.Object

/-!
# JSON values as trees

A tree keeps all that a JSON text says: the entries of a list and the members of an object in
their order, with equal keys side by side.  A text is decoded into a tree up to a given depth.
-/

namespace BackupReport.Json

open Decoder

/-- A JSON value. -/
inductive Tree where
  | null
  | boolean (b : Bool)
  | number (n : Number)
  | string (s : String)
  | list (entries : List Tree)
  | object (members : List (String × Tree))

namespace Tree

/-! ## Decoding -/

/-- Reads one more member of an object, whose members so far are given in reverse. -/
def member (decode : Decoder Tree) (sofar : List (String × Tree)) :
    Decoder (Step (List (String × Tree)) (List (String × Tree))) := do
  if ← nextMember sofar.isEmpty then
    let key ← Text.decode
    colon
    let value ← decode
    pure (.more ((key, value) :: sofar))
  else
    eat
    pure (.done sofar.reverse)

/-- A value whose entries and member values are read by `inner`; without one, a list or object is
refused as nested too deeply. -/
def decodeWith (inner : Option (Decoder Tree)) : Decoder Tree :=
  onLead fun
    | .null => do
      eat
      word restOfNull
      pure .null
    | .yes => do
      eat
      word restOfTrue
      pure (.boolean true)
    | .no => do
      eat
      word restOfFalse
      pure (.boolean false)
    | .minus | .digit => .number <$> Number.decode
    | .quote => do
      eat
      .string <$> Text.decode
    | .list =>
      match inner with
      | none => refuseNext .tooDeep
      | some decode => do
        eat
        .list <$> entries decode
    | .object =>
      match inner with
      | none => refuseNext .tooDeep
      | some decode => do
        eat
        .object <$> iterate (member decode) []
    | .other => refuseNext .expectedValue

/-- A value in which lists and objects are nested at most `depth` deep. -/
def decodeWithin : Nat → Decoder Tree
  | 0 => decodeWith none
  | depth + 1 => decodeWith (some (decodeWithin depth))

/-- How deep a value may be nested. -/
def depthLimit : Nat := 127

/-- A value. -/
def decode : Decoder Tree := decodeWithin depthLimit

end Tree

end BackupReport.Json
