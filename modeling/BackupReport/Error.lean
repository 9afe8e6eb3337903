import BackupReport.Files.Path
import BackupReport.Json.Fault

/-!
# Errors

What can go wrong: a file cannot be read or written, a source fails while it is read, a text does
not decode, or an input is refused.
-/

namespace BackupReport

/-- An error with its cause. -/
inductive Error where
  | file (e : Files.FileError)
  | source (reason : String)
  | decode (cause : Json.Cause) (position : Json.Position)
  | invalidInput (reason : String)
deriving DecidableEq

namespace Error

/-- The error that a fault of a decoder is. -/
def ofFault : Json.Fault → Error
  | .sourceFailed reason => .source reason
  | .refused cause position => .decode cause position

/-- The wording of a cause and the place of it. -/
def placed (cause : Json.Cause) (p : Json.Position) : String :=
  cause.message ++ " at line " ++ toString p.line ++ " column " ++ toString p.column

/-- What an error wraps, in words; a refused input wraps nothing. -/
def inner? : Error → Option String
  | .file e => some e.message
  | .source reason => some reason
  | .decode cause position => some (placed cause position)
  | .invalidInput _ => none

/-- The wording of an error. -/
def message : Error → String
  | .file e => "I/O error: " ++ e.message
  | .source reason => "I/O error: " ++ reason
  | .decode cause position => "Decode error: " ++ placed cause position
  | .invalidInput reason => "Invalid input: " ++ reason

end Error

end BackupReport
