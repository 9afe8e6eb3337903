import BackupReport.Event
import BackupReport.Json.Object

/-!
# The outcome of a retention run

The output of a retention run is a list of groups, each with the snapshots that it kept and those
that it removed.  Only their numbers count; the entries themselves may be anything.
-/

namespace BackupReport.Retention

open Json

/-- How many snapshots a group kept and removed. -/
structure Group where
  kept : Nat := 0
  removed : Nat := 0
deriving DecidableEq

/-- The number of entries of a list; `null` has none. -/
def entryCount : Decoder Nat := nullAsDefault (List.length <$> list skipValue)

/-- The fields of a group. -/
def Group.fields : List (Json.Field Group) :=
  [.of "keep" entryCount fun n g => { g with kept := n },
    .of "remove" entryCount fun n g => { g with removed := n }]

/-- A group. -/
def Group.decode : Decoder Group := record "ForgetGroup" fields {}

/-- How many snapshots a run kept and removed. -/
structure Totals where
  kept : Int64
  removed : Int64
deriving DecidableEq

/-- A number as a word, or the greatest word. -/
def clamp (n : Nat) : Int64 := Int64.ofNat (min n (UInt64.size / 2 - 1))

/-- The sums over some groups. -/
def Totals.ofGroups (groups : List Group) : Totals :=
  ⟨clamp (groups.foldr (·.kept + ·) 0), clamp (groups.foldr (·.removed + ·) 0)⟩

/-- The totals that the output of a retention run reports. -/
def totals (output : List UInt8) : Logged (Except Error Totals) :=
  match decodeWhole (list Group.decode) output with
  | .error fault => pure (.error (.ofFault fault))
  | .ok groups => do
    let t := Totals.ofGroups groups
    Logged.note (.retentionCounted groups.length t.kept t.removed)
    pure (.ok t)

end BackupReport.Retention
