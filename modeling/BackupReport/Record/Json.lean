import BackupReport.Error
import BackupReport.Record
import BackupReport.Json.Pretty

/-!
# Records as JSON texts

A record is written as an object that leaves out whatever has its default: an empty text, a
missing counter, a zero count, an empty list.  Reading fills the defaults in again.
-/

namespace BackupReport

open Json Json.Decoder

/-! ## Writing -/

/-- The members of an object. -/
abbrev Members := List (String × Tree)

/-- A text, unless it is empty. -/
def textMember (key s : String) : Members := if s = "" then [] else [(key, .string s)]

/-- A count, unless it is zero. -/
def countMember (key : String) (n : Int64) : Members :=
  if n = 0 then [] else [(key, .number (.integer n.toInt))]

/-- A value that may be missing. -/
def optionMember {α : Type} (key : String) (toTree : α → Tree) (a : Option α) : Members :=
  match a with
  | none => []
  | some a => [(key, toTree a)]

/-- A list, unless it is empty. -/
def listMember {α : Type} (key : String) (toTree : α → Tree) (as : List α) : Members :=
  if as.isEmpty then [] else [(key, .list (as.map toTree))]

/-- A counter as a value. -/
def counterTree (n : Int64) : Tree := .number (.integer n.toInt)

/-- File counters as an object. -/
def FileCounts.toTree (c : FileCounts) : Tree :=
  .object <|
    optionMember "totalFiles" counterTree c.total ++
    optionMember "newFiles" counterTree c.added ++
    optionMember "modifiedFiles" counterTree c.modified ++
    optionMember "unmodifiedFiles" counterTree c.unmodified

/-- A snapshot as an object; its file counters are always there. -/
def Snapshot.toTree (s : Snapshot) : Tree :=
  .object <|
    textMember "name" s.name ++
    textMember "path" s.path ++
    textMember "totalSize" s.totalSize ++
    textMember "uploaded" s.uploaded ++
    textMember "processingTime" s.processingTime ++
    [("fileStats", s.files.toTree)]

/-- A phase as a value. -/
def Phase.toTree (p : Phase) : Tree := .string p.name

/-- The backup of a host as an object. -/
def HostBackup.toTree (h : HostBackup) : Tree :=
  .object <|
    textMember "hostname" h.hostname ++
    optionMember "phase" Phase.toTree h.phase ++
    listMember "snapshots" Snapshot.toTree h.snapshots ++
    textMember "duration" h.duration ++
    textMember "error" h.error

/-- The restore of a host as an object. -/
def HostRestore.toTree (h : HostRestore) : Tree :=
  .object <|
    textMember "hostname" h.hostname ++
    optionMember "phase" Phase.toTree h.phase ++
    textMember "duration" h.duration ++
    textMember "error" h.error

/-- The state of the repository as an object. -/
def Repository.toTree (r : Repository) : Tree :=
  .object <|
    optionMember "integrity" Tree.boolean r.integrity ++
    textMember "size" r.size ++
    countMember "snapshotCount" r.snapshotCount ++
    countMember "snapshotsRemovedOnLastCleanup" r.removedCount

/-- A backup record as an object; its repository is always there. -/
def BackupRecord.toTree (r : BackupRecord) : Tree :=
  .object <|
    listMember "hostBackupStats" HostBackup.toTree r.hosts ++
    [("repository", r.repository.toTree)]

/-- A restore record as an object. -/
def RestoreRecord.toTree (r : RestoreRecord) : Tree :=
  .object (listMember "hostRestoreStats" HostRestore.toTree r.hosts)

/-- The text of a backup record. -/
def BackupRecord.json (r : BackupRecord) : List Char := Pretty.text r.toTree

/-- The text of a restore record. -/
def RestoreRecord.json (r : RestoreRecord) : List Char := Pretty.text r.toTree

/-! ## Reading -/

/-- File counters. -/
def FileCounts.decode : Decoder FileCounts :=
  record "FileStats"
    [.of "totalFiles" (optional signed) fun n c => { c with total := n },
      .of "newFiles" (optional signed) fun n c => { c with added := n },
      .of "modifiedFiles" (optional signed) fun n c => { c with modified := n },
      .of "unmodifiedFiles" (optional signed) fun n c => { c with unmodified := n }]
    {}

/-- A snapshot. -/
def Snapshot.decode : Decoder Snapshot :=
  record "SnapshotStats"
    [.of "name" string fun s r => { r with name := s },
      .of "path" string fun s r => { r with path := s },
      .of "totalSize" string fun s r => { r with totalSize := s },
      .of "uploaded" string fun s r => { r with uploaded := s },
      .of "processingTime" string fun s r => { r with processingTime := s },
      .of "fileStats" FileCounts.decode fun c r => { r with files := c }]
    {}

/-- The phase of a name. -/
def Phase.ofName? (name : String) : Option Phase :=
  if name = Phase.succeeded.name then some .succeeded
  else if name = Phase.failed.name then some .failed
  else none

/-- A phase by its name, before the opening quote. -/
def Phase.named : Decoder Phase := do
  eat
  let name ← Text.decode
  match Phase.ofName? name with
  | some phase => pure phase
  | none => refuseHere (.unknownVariant name)

/-- A phase as the only key of an object, with `null` as the value, after the opening brace. -/
def Phase.keyed : Decoder Phase := do
  match ← gap with
  | none => refuseNext .endOfObject
  | some b =>
    if b = 0x22 then
      let phase ← Phase.named
      colon
      unit
      match ← gap with
      | none => refuseHere .endOfObject
      | some c =>
        if c = 0x7D then
          eat
          pure phase
        else refuseHere .expectedValue
    else if b = 0x7D then refuseNext .expectedValue
    else refuseNext .keyNotString

/-- A phase: its name, or an object with the name as its only key. -/
def Phase.decode : Decoder Phase :=
  onLead fun
    | .quote => Phase.named
    | .object => do
      eat
      Phase.keyed
    | _ => refuseNext .expectedValue

/-- The backup of a host. -/
def HostBackup.decode : Decoder HostBackup :=
  record "HostBackupStats"
    [.of "hostname" string fun s r => { r with hostname := s },
      .of "phase" (optional Phase.decode) fun p r => { r with phase := p },
      .of "snapshots" (list Snapshot.decode) fun l r => { r with snapshots := l },
      .of "duration" string fun s r => { r with duration := s },
      .of "error" string fun s r => { r with error := s }]
    {}

/-- The restore of a host. -/
def HostRestore.decode : Decoder HostRestore :=
  record "HostRestoreStats"
    [.of "hostname" string fun s r => { r with hostname := s },
      .of "phase" (optional Phase.decode) fun p r => { r with phase := p },
      .of "duration" string fun s r => { r with duration := s },
      .of "error" string fun s r => { r with error := s }]
    {}

/-- The state of the repository. -/
def Repository.decode : Decoder Repository :=
  record "RepositoryStats"
    [.of "integrity" (optional boolean) fun b r => { r with integrity := b },
      .of "size" string fun s r => { r with size := s },
      .of "snapshotCount" signed fun n r => { r with snapshotCount := n },
      .of "snapshotsRemovedOnLastCleanup" signed fun n r => { r with removedCount := n }]
    {}

/-- A backup record. -/
def BackupRecord.decode : Decoder BackupRecord :=
  record "BackupOutput"
    [.of "hostBackupStats" (list HostBackup.decode) fun l r => { r with hosts := l },
      .of "repository" Repository.decode fun s r => { r with repository := s }]
    {}

/-- A restore record. -/
def RestoreRecord.decode : Decoder RestoreRecord :=
  record "RestoreOutput"
    [.of "hostRestoreStats" (list HostRestore.decode) fun l r => { r with hosts := l }]
    {}

/-- The backup record that a text holds. -/
def BackupRecord.ofBytes (bytes : List UInt8) : Except Error BackupRecord :=
  (decodeWhole BackupRecord.decode bytes).mapError .ofFault

/-- The restore record that a text holds. -/
def RestoreRecord.ofBytes (bytes : List UInt8) : Except Error RestoreRecord :=
  (decodeWhole RestoreRecord.decode bytes).mapError .ofFault

end BackupReport
