import BackupReport.Event
import BackupReport.Text.Blank
import BackupReport.Utf8

/-!
# The outcome of an integrity check

The output of an integrity check is plain text.  The check passed if some line of it, without the
blank characters around it, is the success marker.  Bytes that are not UTF-8 spoil the line that
they stand on and no other.
-/

namespace BackupReport.Integrity

/-- The line that reports success. -/
def marker : List Char := "no errors were found".toList

/-- The lines of a byte string, without their newline bytes. -/
def lines : List UInt8 → List (List UInt8)
  | [] => [[]]
  | b :: rest =>
    if b = 0x0A then [] :: lines rest
    else match lines rest with
      | [] => [[b]]
      | line :: later => (b :: line) :: later

/-- Whether a line holds the success marker and nothing else that is not blank. -/
def isMarkerLine (line : List UInt8) : Bool := trim (Utf8.decodeLossy line) == marker

/-- Whether the output of an integrity check reports success. -/
def passed (output : List UInt8) : Bool := (lines output).any isMarkerLine

/-- Whether the output of an integrity check reports success; its absence is noted. -/
def check (output : List UInt8) : Logged Bool := do
  if passed output then pure true
  else
    Logged.note .markerMissing
    pure false

end BackupReport.Integrity
