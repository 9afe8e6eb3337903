import BackupReport.Record

/-!
# Records as plain text

A record is listed line by line.  What is empty or unknown is shown as a dash, so that a counter
that was not reported never looks like zero.
-/

namespace BackupReport.Listing

/-! ## Parts of a line -/

/-- A text, or a dash if it is empty. -/
def orDash (s : String) : String := if s = "" then "-" else s

/-- A counter, or a dash if it was not reported. -/
def counter : Option Int64 → String
  | none => "-"
  | some n => toString n.toInt

/-- A phase, or a dash if there is none. -/
def phase : Option Phase → String
  | none => "-"
  | some p => p.name

/-- As many blanks as a text lacks of a width, counted in characters. -/
def blanks (s : String) (width : Nat) : String :=
  String.ofList (List.replicate (width - s.length) ' ')

/-- A text at the left of a column. -/
def left (s : String) (width : Nat) : String := s ++ blanks s width

/-- A text at the right of a column. -/
def right (s : String) (width : Nat) : String := blanks s width ++ s

/-! ## Lines -/

/-- A row of the table of snapshots. -/
def row (path name total uploaded time : String) : String :=
  "    " ++ left path 40 ++ " " ++ left name 12 ++ " " ++ right total 14 ++ " " ++
    right uploaded 14 ++ " " ++ right time 10

/-- The head of the table of snapshots. -/
def tableHead : String := row "Path" "Snapshot" "Total" "Uploaded" "Time"

/-- The line of some file counters. -/
def fileCounts (c : FileCounts) : String :=
  "      files: " ++ counter c.total ++ " total, " ++ counter c.added ++ " new, " ++
    counter c.modified ++ " modified, " ++ counter c.unmodified ++ " unmodified"

/-- The lines of a snapshot. -/
def snapshot (s : Snapshot) : List String :=
  [row s.path (orDash s.name) (orDash s.totalSize) (orDash s.uploaded) (orDash s.processingTime),
    fileCounts s.files]

/-- The lines about a host: its name, phase and duration, and its error if there is one. -/
def host (hostname : String) (p : Option Phase) (duration error : String) : List String :=
  (orDash hostname ++ " [" ++ phase p ++ "] " ++ duration) ::
    (if error = "" then [] else ["  error: " ++ error])

/-- The lines of the backup of a host. -/
def hostBackup (h : HostBackup) : List String :=
  host h.hostname h.phase h.duration h.error ++
    (if h.snapshots.isEmpty then [] else tableHead :: h.snapshots.flatMap snapshot)

/-- The lines of the restore of a host. -/
def hostRestore (h : HostRestore) : List String :=
  host h.hostname h.phase h.duration h.error

/-- The line that stands for an empty list of hosts. -/
def noHosts : String := "No hosts recorded."

/-- An integrity in words. -/
def integrity : Option Bool → String
  | some true => "passed"
  | some false => "FAILED"
  | none => "not checked"

/-- The lines of the state of the repository. -/
def repository (r : Repository) : List String :=
  ["", "Repository",
    "  integrity: " ++ integrity r.integrity,
    "  size:      " ++ orDash r.size,
    "  snapshots: " ++ toString r.snapshotCount.toInt,
    "  removed:   " ++ toString r.removedCount.toInt]

/-! ## Listings -/

/-- The lines of a backup record. -/
def backupLines (r : BackupRecord) : List String :=
  (if r.hosts.isEmpty then [noHosts] else r.hosts.flatMap hostBackup) ++ repository r.repository

/-- The lines of a restore record. -/
def restoreLines (r : RestoreRecord) : List String :=
  if r.hosts.isEmpty then [noHosts] else r.hosts.flatMap hostRestore

/-- Lines as one text, each with a newline behind it. -/
def text (lines : List String) : String := String.join (lines.map (· ++ "\n"))

/-- The listing of a backup record. -/
def backup (r : BackupRecord) : String := text (backupLines r)

/-- The listing of a restore record. -/
def restore (r : RestoreRecord) : String := text (restoreLines r)

end BackupReport.Listing
