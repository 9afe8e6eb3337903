import BackupReport.Duration
import BackupReport.Event
import BackupReport.Json.Messages
import BackupReport.Record
import BackupReport.Size

/-!
# The outcome of a backup run

The output of a backup run is a stream of progress messages that ends with a summary.  The first
summary is what counts; whatever follows it is not looked at.  All messages are decoded into one
type, in which everything has a default.
-/

namespace BackupReport

open Json

/-! ## Messages -/

/-- One message of a backup run. -/
structure Message where
  kind : String := ""
  filesNew : Option Int64 := none
  filesChanged : Option Int64 := none
  filesUnmodified : Option Int64 := none
  dataAdded : UInt64 := 0
  filesProcessed : Option Int64 := none
  bytesProcessed : UInt64 := 0
  duration : Binary64 := .zero
  snapshot : String := ""
deriving DecidableEq

namespace Message

/-- The fields of a message. -/
def fields : List (Json.Field Message) :=
  [.of "message_type" (nullAsDefault string) fun s m => { m with kind := s },
    .of "files_new" (optional signed) fun n m => { m with filesNew := n },
    .of "files_changed" (optional signed) fun n m => { m with filesChanged := n },
    .of "files_unmodified" (optional signed) fun n m => { m with filesUnmodified := n },
    .of "data_added" (nullAsDefault unsigned) fun n m => { m with dataAdded := n },
    .of "total_files_processed" (optional signed) fun n m => { m with filesProcessed := n },
    .of "total_bytes_processed" (nullAsDefault unsigned) fun n m => { m with bytesProcessed := n },
    .of "total_duration" (nullAsDefault double) fun x m => { m with duration := x },
    .of "snapshot_id" (nullAsDefault string) fun s m => { m with snapshot := s }]

/-- A message. -/
def decode : Decoder Message := record "BackupSummary" fields {}

/-- Whether a message is a summary. -/
def isSummary (m : Message) : Bool := m.kind == "summary"

/-- What a summary says about a source path. -/
def toSnapshot (m : Message) (path : String) : Snapshot where
  name := m.snapshot
  path := path
  totalSize := Size.text m.bytesProcessed
  uploaded := Size.text m.dataAdded
  processingTime := Duration.text m.duration.toWord
  files :=
    { total := m.filesProcessed
      added := m.filesNew
      modified := m.filesChanged
      unmodified := m.filesUnmodified }

end Message

/-! ## The summary of a run -/

namespace Snapshot

/-- The snapshot of the first summary among the items of a stream, of which some have been passed
over already.  Without a summary the snapshot holds the path only. -/
def ofItems (path : String) : Nat → List (Except Fault Message) →
    Logged (Except Error Snapshot)
  | skipped, [] => do
    Logged.note (.summaryMissing path skipped)
    pure (.ok { path := path })
  | _, .error fault :: _ => pure (.error (.ofFault fault))
  | skipped, .ok m :: later =>
    if m.isSummary then do
      Logged.note (.summaryFound path skipped m.snapshot)
      pure (.ok (m.toSnapshot path))
    else ofItems path (skipped + 1) later

/-- The snapshot that a source reports on a path. -/
def ofSource (path : String) (s : Source) : Logged (Except Error Snapshot) :=
  ofItems path 0 ((Messages.ofSource s).items Message.decode)

/-- The snapshot that the output of a backup run reports on a path. -/
def ofOutput (path : String) (output : List UInt8) : Logged (Except Error Snapshot) :=
  ofSource path (.ofBytes output)

end Snapshot

end BackupReport
