import BackupReport.Json.Decoder

/-!
# Sources

A source hands out its bytes in reads of limited size.  It may fail: once a given number of bytes
has been handed out, no further read succeeds.  Decoders take single bytes, so that what they see
of a source is the bytes that it hands out and what lies behind the last of them.
-/

namespace BackupReport.Json

/-- A source of bytes: the greatest size of one read, and where and why reading fails, if it
does. -/
structure Source where
  bytes : List UInt8
  readSize : Nat
  failure : Option (Nat × String)

namespace Source

/-- A source that does not fail. -/
def ofBytes (bytes : List UInt8) : Source := ⟨bytes, 8192, none⟩

/-- The bytes that come before the failure, or all. -/
def reachable (s : Source) : List UInt8 :=
  match s.failure with
  | some (position, _) => s.bytes.take position
  | none => s.bytes

/-- Bytes in pieces of a given size, the first of which has room for `room` bytes. -/
def pieces (size : Nat) : Nat → List UInt8 → List (List UInt8)
  | _, [] => []
  | 0, b :: rest =>
    match pieces size (size - 1) rest with
    | [] => [[], [b]]
    | piece :: later => [] :: (b :: piece) :: later
  | room + 1, b :: rest =>
    match pieces size room rest with
    | [] => [[b]]
    | piece :: later => (b :: piece) :: later

/-- What the successful reads return. -/
def reads (s : Source) : List (List UInt8) := pieces s.readSize s.readSize s.reachable

/-- What lies behind the last read: a failure within or right behind the bytes, or the end. -/
def ending (s : Source) : Ending :=
  match s.failure with
  | some (position, reason) =>
    if position ≤ s.bytes.length then .failing reason else .closed
  | none => .closed

/-- The cursor at the start of a source. -/
def cursor (s : Source) : Cursor := .ofReads s.reads.flatten s.ending

/-! ## Pieces -/

/-- Cutting bytes into pieces loses none and keeps their order. -/
theorem flatten_pieces (size room : Nat) (bytes : List UInt8) :
    (pieces size room bytes).flatten = bytes := by
  induction bytes generalizing room with
  | nil => cases room <;> rfl
  | cons b rest ih =>
    cases room with
    | zero =>
      rw [pieces]
      have h := ih (size - 1)
      cases hp : pieces size (size - 1) rest with
      | nil => rw [hp] at h; simp at h; simp [h]
      | cons piece later => rw [hp] at h; simp at h; simp [h]
    | succ room =>
      rw [pieces]
      have h := ih room
      cases hp : pieces size room rest with
      | nil => rw [hp] at h; simp at h; simp [h]
      | cons piece later => rw [hp] at h; simp at h; simp [h]

/-- The size of the reads does not matter to a decoder. -/
theorem flatten_reads (s : Source) : s.reads.flatten = s.reachable := flatten_pieces _ _ _

end Source

end BackupReport.Json
