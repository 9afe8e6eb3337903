import BackupReport.Event
import BackupReport.Files.Access
import BackupReport.Record.Json

/-!
# Records in files

A record is written to a file as its JSON text, in place of what the file held, and read back from
it.  The directories on the way to the file are created.
-/

namespace BackupReport.Archive

open Files

variable {m : Type → Type} [Monad m]

/-- Writes the text of a record to a file. -/
def write (files : Access m) (path : String) (text : List Char) :
    m (Logged (Except Error Unit)) := do
  match ← files.write (.ofString path) (Utf8.encode text) with
  | .error e => pure ⟨.error (.file e), []⟩
  | .ok () => pure ⟨.ok (), [.recordWritten path]⟩

/-- Reads a record from a file. -/
def read {α : Type} (files : Access m) (ofBytes : List UInt8 → Except Error α) (path : String) :
    m (Logged (Except Error α)) := do
  match ← files.read (.ofString path) with
  | .error e => pure ⟨.error (.file e), []⟩
  | .ok bytes =>
    match ofBytes bytes with
    | .error e => pure ⟨.error e, []⟩
    | .ok a => pure ⟨.ok a, [.recordRead path]⟩

/-- Reads a backup record from a file. -/
def readBackup (files : Access m) (path : String) : m (Logged (Except Error BackupRecord)) :=
  read files BackupRecord.ofBytes path

/-- Reads a restore record from a file. -/
def readRestore (files : Access m) (path : String) : m (Logged (Except Error RestoreRecord)) :=
  read files RestoreRecord.ofBytes path

end BackupReport.Archive
