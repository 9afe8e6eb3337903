import BackupReport.Command.Run

/-!
# The program

The outer layer: arguments, environment and files of the machine.
-/

namespace BackupReport

open Files

/-- The file error that an error of the machine is. -/
def fileErrorOf : IO.Error → FileError
  | .noFileOrDirectory .. | .noSuchThing .. => .notFound
  | .alreadyExists .. => .alreadyExists
  | .inappropriateType _ code _ =>
    if code = 21 ∨ code = 0 - 21 then .isDirectory else .notDirectory
  | .invalidArgument _ 36 _ => .nameTooLong
  | e => .other (toString e)

/-- Runs an action on the files of the machine. -/
def attempt {α : Type} (action : IO α) : IO (Except FileError α) := do
  try
    let a ← action
    pure (.ok a)
  catch e => pure (.error (fileErrorOf e))

/-- The files of the machine. -/
def machineFiles : Access IO where
  read p := attempt (ByteArray.toList <$> IO.FS.readBinFile p.toString)
  overwrite p bytes := attempt (IO.FS.writeBinFile p.toString ⟨bytes.toArray⟩)
  createDirectory p := attempt (IO.FS.createDir p.toString)
  isDirectory p := do
    match ← attempt (IO.FS.realPath p.toString) with
    | .ok path => path.isDir
    | .error _ => pure false

end BackupReport

open BackupReport in
/-- Runs the program and prints what it has to say. -/
def main (arguments : List String) : IO UInt32 := do
  let outcome ← run machineFiles (← IO.getEnv "HOSTNAME") arguments
  IO.print outcome.out
  IO.eprint outcome.err
  pure outcome.code
