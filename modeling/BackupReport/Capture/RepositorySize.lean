import BackupReport.Error
import BackupReport.Json.Object
import BackupReport.Size

/-!
# The size of a repository

The output of a statistics run is one object with the total size in bytes.
-/

namespace BackupReport.RepositorySize

open Json

/-- The field of the object. -/
def fields : List (Json.Field UInt64) := [.of "total_size" (nullAsDefault unsigned) fun n _ => n]

/-- The size that the object reports, in bytes. -/
def decode : Decoder UInt64 := record "StatsContainer" fields 0

/-- The text of the size that the output of a statistics run reports. -/
def text (output : List UInt8) : Except Error String :=
  ((decodeWhole decode output).mapError .ofFault).map Size.text

end BackupReport.RepositorySize
