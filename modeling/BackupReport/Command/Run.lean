import BackupReport.Archive
import BackupReport.Command
import BackupReport.Command.Help
import BackupReport.Listing
import BackupReport.Session
import BackupReport.Text.Blank

/-!
# Running a command

A run reads captured outputs from files, builds a record and writes it to a file, or shows one that
was written before.  All files are read before the one that is written.  What a run leaves behind
apart from that file is an exit code and two texts.

Exit codes: 0 is success, 2 a command line that is refused, 3 a record with a failed host, 4 a file
that cannot be read, decoded or written.
-/

namespace BackupReport

open Files

/-- The exit code of a run and what it prints. -/
structure Outcome where
  code : UInt32
  out : String := ""
  err : String := ""
deriving DecidableEq

variable {m : Type → Type} [Monad m]

/-! ## Parts of a run -/

/-- The host name that is used if none is known. -/
def fallbackHost : String := "host-0"

/-- The host name that was asked for, or else the one of the machine unless it is empty. -/
def resolveHost (asked machine : Option String) : String :=
  match asked with
  | some name => name
  | none =>
    match machine with
    | some name => if name = "" then fallbackHost else name
    | none => fallbackHost

/-- The complaint about a captured output that cannot be read. -/
def unreadable (file : String) (e : FileError) : String :=
  "Error: Failed to read " ++ file ++ ": " ++ e.message ++ "\n"

/-- The complaint about a captured output that does not decode. -/
def undecodable (what file : String) (e : Error) : String :=
  "Error: Invalid " ++ what ++ " output in " ++ file ++ ": " ++ e.message ++ "\n"

/-- The complaint about a file that cannot be written. -/
def unwritable (file : String) (e : Error) : String :=
  "Error: Failed to write " ++ file ++ ": " ++ e.message ++ "\n"

/-- The content of a captured output, or the complaint about it. -/
def readFile (files : Access m) (file : String) : m (Except String (List UInt8)) := do
  match ← files.read (.ofString file) with
  | .ok bytes => pure (.ok bytes)
  | .error e => pure (.error (unreadable file e))

/-- The contents of the captured outputs of some backup runs. -/
def readOutputs (files : Access m) : List Capture → m (Except String (List RunOutput))
  | [] => pure (.ok [])
  | capture :: later => do
    match ← readFile files capture.file with
    | .error complaint => pure (.error complaint)
    | .ok bytes =>
      match ← readOutputs files later with
      | .error complaint => pure (.error complaint)
      | .ok outputs => pure (.ok (⟨capture.path, bytes⟩ :: outputs))

/-- A record with a captured output applied to it, if there is one.  `apply` is given the file and
its content. -/
def applyFile (files : Access m) (file : Option String)
    (apply : String → List UInt8 → BackupRecord → Except String BackupRecord)
    (r : BackupRecord) : m (Except String BackupRecord) :=
  match file with
  | none => pure (.ok r)
  | some file => do
    match ← readFile files file with
    | .error complaint => pure (.error complaint)
    | .ok bytes => pure (apply file bytes r)

/-- The record that a step leaves, or the complaint about the file that it was taken from. -/
def orComplain (what file : String) (result : BackupRecord × Except Error Unit) :
    Except String BackupRecord :=
  match result.2 with
  | .ok () => .ok result.1
  | .error e => .error (undecodable what file e)

/-- A record with the captured outputs of the runs on the repository applied to it. -/
def applyRepositoryFiles (files : Access m) (o : BackupOptions) (r : BackupRecord) :
    m (Except String BackupRecord) := do
  let kept ← applyFile files o.forget
    (fun file bytes r => orComplain "forget" file (r.applyRetention bytes).value) r
  match kept with
  | .error complaint => pure (.error complaint)
  | .ok r =>
    let checked ← applyFile files o.check
      (fun _ bytes r => .ok (r.applyIntegrity bytes).value) r
    match checked with
    | .error complaint => pure (.error complaint)
    | .ok r =>
      applyFile files o.stats
        (fun file bytes r => orComplain "stats" file (r.applySize bytes)) r

/-- Writes a record; the exit code says whether it has a failed host. -/
def finish (files : Access m) (output : String) (text : List Char) (failed : Bool)
    (warning : String) : m Outcome := do
  match (← Archive.write files output text).value with
  | .ok () => pure { code := if failed then 3 else 0, err := warning }
  | .error e => pure { code := 4, err := warning ++ unwritable output e }

/-! ## Commands -/

/-- Builds a backup record from captured outputs and writes it. -/
def runBackup (files : Access m) (machine : Option String) (o : BackupOptions) : m Outcome := do
  let host := resolveHost o.host machine
  match ← readOutputs files o.snapshots with
  | .error complaint => pure { code := 4, err := complaint }
  | .ok outputs =>
    let (r, result) := (BackupRecord.addHost host outputs o.seconds {}).value
    let warning := match result with
      | .ok () => ""
      | .error e =>
        "Error: Backup output for " ++ host ++ " could not be decoded: " ++ e.message ++ "\n"
    match ← applyRepositoryFiles files o r with
    | .error complaint => pure { code := 4, err := warning ++ complaint }
    | .ok r => finish files o.output r.json r.hasFailures warning

/-- Writes a restore record for one host, which failed if there is an error. -/
def runRestore (files : Access m) (machine : Option String) (o : RestoreOptions) : m Outcome :=
  let host := resolveHost o.host machine
  let r := match o.error with
    | some error => RestoreRecord.addFailedHost host o.seconds error {}
    | none => RestoreRecord.addHost host o.seconds {}
  finish files o.output r.json r.hasFailures ""

/-- Prints a text without the blanks at its end. -/
def shown (text : List Char) : Outcome :=
  { code := 0, out := String.ofList (trimEnd text) ++ "\n" }

/-- The outcome of showing a record that was read. -/
def showResult {α : Type} (file : String) (text : α → List Char) :
    Except Error α → Outcome
  | .ok r => shown (text r)
  | .error e => { code := 4, err := "Error reading " ++ file ++ ": " ++ e.message ++ "\n" }

/-- Shows a record as plain text or as JSON. -/
def runShow (files : Access m) (o : ShowOptions) : m Outcome := do
  if o.restore then
    let r ← Archive.readRestore files o.file
    let text := if o.json then RestoreRecord.json else fun r => (Listing.restore r).toList
    pure (showResult o.file text r.value)
  else
    let r ← Archive.readBackup files o.file
    let text := if o.json then BackupRecord.json else fun r => (Listing.backup r).toList
    pure (showResult o.file text r.value)

/-- Runs a command. -/
def Command.run (files : Access m) (machine : Option String) : Command → m Outcome
  | .backup o => runBackup files machine o
  | .restore o => runRestore files machine o
  | .view o => runShow files o

/-! ## The program -/

/-- The outcome of asking for help. -/
def helpOutcome : Outcome := { code := 0, out := Listing.text helpLines }

/-- The outcome of asking for the version. -/
def versionOutcome : Outcome := { code := 0, out := Listing.text [versionLine] }

/-- The outcome of a command line that is refused. -/
def refusedOutcome (e : UsageError) : Outcome :=
  { code := 2, err := "Error: " ++ e.message ++ "\nUse --help for usage information\n" }

/-- Runs the program with its arguments.  A request for help or for the version counts in the
first place only; no arguments at all ask for help. -/
def run (files : Access m) (machine : Option String) (arguments : List String) : m Outcome :=
  match arguments with
  | [] => pure helpOutcome
  | first :: _ =>
    if first = "--help" ∨ first = "-h" then pure helpOutcome
    else if first = "--version" ∨ first = "-v" then pure versionOutcome
    else match Command.ofArguments arguments with
      | .error e => pure (refusedOutcome e)
      | .ok command => command.run files machine

end BackupReport
