/-!
# Records

The records that a session leaves behind.  Counters that were not reported are `none`, which is
not the same as zero.
-/

namespace BackupReport

/-- File counters of one backup run. -/
structure FileCounts where
  total : Option Int64 := none
  added : Option Int64 := none
  modified : Option Int64 := none
  unmodified : Option Int64 := none
deriving DecidableEq

/-- The result of one backup run for one source path. -/
structure Snapshot where
  name : String := ""
  path : String := ""
  totalSize : String := ""
  uploaded : String := ""
  processingTime : String := ""
  files : FileCounts := {}
deriving DecidableEq

/-- How the work on a host ended. -/
inductive Phase where
  | succeeded
  | failed
deriving DecidableEq

/-- The name of a phase. -/
def Phase.name : Phase → String
  | .succeeded => "Succeeded"
  | .failed => "Failed"

/-- The backup of one host. -/
structure HostBackup where
  hostname : String := ""
  phase : Option Phase := none
  snapshots : List Snapshot := []
  duration : String := ""
  error : String := ""
deriving DecidableEq

/-- The restore of one host. -/
structure HostRestore where
  hostname : String := ""
  phase : Option Phase := none
  duration : String := ""
  error : String := ""
deriving DecidableEq

/-- The state of the repository; `integrity` is `none` if it was not checked. -/
structure Repository where
  integrity : Option Bool := none
  size : String := ""
  snapshotCount : Int64 := 0
  removedCount : Int64 := 0
deriving DecidableEq

/-- What a backup session leaves behind. -/
structure BackupRecord where
  hosts : List HostBackup := []
  repository : Repository := {}
deriving DecidableEq

/-- What a restore session leaves behind. -/
structure RestoreRecord where
  hosts : List HostRestore := []
deriving DecidableEq

end BackupReport
