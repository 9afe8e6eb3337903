import BackupReport.Json.Object
import BackupReport.Json.Source

/-!
# Streams of messages

A stream holds messages one after the other, each a value of one type, with nothing between them
but optional gaps.  Messages are handed out until the stream ends or a fault is met; after a fault
nothing more is handed out.
-/

namespace BackupReport.Json

open Decoder

variable {α : Type}

/-! ## One message -/

/-- Whether a value ends where its last byte says so: a list, an object and a string do. -/
def Lead.delimited : Lead → Bool
  | .quote | .list | .object => true
  | _ => false

/-- Whether a byte may stand directly behind a value that does not show its own end. -/
def endsScalar (b : UInt8) : Bool :=
  isGap b || b == 0x22 || b == 0x5B || b == 0x5D || b == 0x7B || b == 0x7D || b == 0x2C ||
    b == 0x3A

/-- Makes sure that a value ends before the next byte. -/
def scalarEnd : Decoder Unit := do
  match ← peek with
  | none => pure ()
  | some b => if endsScalar b then pure () else refuseNext .trailingCharacters

/-- The next message, or nothing at the end of the stream. -/
def message? (decode : Decoder α) : Decoder (Option α) := do
  match ← gap with
  | none => pure none
  | some b =>
    let a ← decode
    if (Lead.of b).delimited then pure (some a)
    else
      scalarEnd
      pure (some a)

/-! ## The stream -/

/-- A stream under way: where it stands, and whether a fault has been handed out. -/
structure Messages where
  cursor : Cursor
  failed : Bool

namespace Messages

/-- A stream at its start. -/
def ofSource (s : Source) : Messages := ⟨s.cursor, false⟩

/-- The next item of a stream, a message or a fault, and the stream behind it. -/
def next (decode : Decoder α) (m : Messages) : Option (Except Fault α) × Messages :=
  if m.failed then (none, m)
  else match (message? decode).run m.cursor with
    | .ok (some a, c) => (some (.ok a), ⟨c, false⟩)
    | .ok (none, c) => (none, ⟨c, false⟩)
    | .error fault => (some (.error fault), ⟨m.cursor, true⟩)

/-- The items of a stream, at most one for each of the given bytes and one more, and the stream
behind them. -/
def drainOver (decode : Decoder α) :
    List UInt8 → Messages → List (Except Fault α) × Messages
  | [], m =>
    match m.next decode with
    | (some item, m') => ([item], m')
    | (none, m') => ([], m')
  | _ :: bound, m =>
    match m.next decode with
    | (some item, m') =>
      let (items, last) := drainOver decode bound m'
      (item :: items, last)
    | (none, m') => ([], m')

/-- All items of a stream and the stream behind them.  Every message takes a byte, and a fault is
the last item. -/
def drain (decode : Decoder α) (m : Messages) : List (Except Fault α) × Messages :=
  drainOver decode m.cursor.rest m

/-- All items of a stream. -/
def items (decode : Decoder α) (m : Messages) : List (Except Fault α) := (m.drain decode).1

end Messages

end BackupReport.Json
