import BackupReport.Capture.Backup
import BackupReport.Capture.Integrity
import BackupReport.Capture.RepositorySize
import BackupReport.Capture.Retention

/-!
# Sessions

A session builds a record step by step, from what the runs on the hosts and on the repository have
put out.  A step that fails leaves the repository part of the record as it was; a host of which
some output does not decode is recorded as failed.
-/

namespace BackupReport

/-! ## Backup sessions -/

/-- The output of one backup run, with the source path that it was about. -/
structure RunOutput where
  path : String
  bytes : List UInt8

namespace BackupRecord

/-- A record with one more host. -/
def withHost (r : BackupRecord) (h : HostBackup) : BackupRecord :=
  { r with hosts := r.hosts ++ [h] }

/-- The snapshots of some outputs in order, up to the first that does not decode, and the error
of that one. -/
def snapshots (hostname : String) : List RunOutput → Logged (List Snapshot × Option Error)
  | [] => pure ([], none)
  | output :: later => do
    match ← Snapshot.ofOutput output.path output.bytes with
    | .ok snapshot =>
      let (others, error) ← snapshots hostname later
      pure (snapshot :: others, error)
    | .error e =>
      Logged.note (.extractionFailed hostname output.path e)
      pure ([], some e)

/-- Records a host from the outputs of its backup runs.  The error, if there is one, is handed on
after the host has been recorded as failed. -/
def addHost (hostname : String) (outputs : List RunOutput) (seconds : UInt64)
    (r : BackupRecord) : Logged (BackupRecord × Except Error Unit) := do
  let (found, error) ← snapshots hostname outputs
  let host : HostBackup :=
    { hostname := hostname, snapshots := found, duration := Duration.text seconds }
  match error with
  | none => pure (r.withHost { host with phase := some .succeeded }, .ok ())
  | some e =>
    pure (r.withHost { host with phase := some .failed, error := e.message }, .error e)

/-- Records a host on which no backup ran. -/
def addFailedHost (hostname error : String) (r : BackupRecord) : BackupRecord :=
  r.withHost { hostname := hostname, phase := some .failed, error := error }

/-- Records the output of a retention run: what is kept is the number of snapshots. -/
def applyRetention (output : List UInt8) (r : BackupRecord) :
    Logged (BackupRecord × Except Error Unit) := do
  match ← Retention.totals output with
  | .ok t =>
    let repository :=
      { r.repository with snapshotCount := t.kept, removedCount := t.removed }
    pure ({ r with repository := repository }, .ok ())
  | .error e => pure (r, .error e)

/-- Records the output of an integrity check. -/
def applyIntegrity (output : List UInt8) (r : BackupRecord) : Logged BackupRecord := do
  let passed ← Integrity.check output
  if passed then pure () else Logged.note .integrityNotConfirmed
  pure { r with repository := { r.repository with integrity := some passed } }

theorem applyIntegrity_value (output : List UInt8) (r : BackupRecord) :
    (r.applyIntegrity output).value = { r with repository :=
      { r.repository with integrity := some (Integrity.check output).value } } := by
  simp only [applyIntegrity, Logged.value_bind]
  split <;> rfl

/-- Records the output of a statistics run. -/
def applySize (output : List UInt8) (r : BackupRecord) : BackupRecord × Except Error Unit :=
  match RepositorySize.text output with
  | .ok size => ({ r with repository := { r.repository with size := size } }, .ok ())
  | .error e => (r, .error e)

/-- Whether some host failed. -/
def hasFailures (r : BackupRecord) : Bool := r.hosts.any (·.phase == some .failed)

end BackupRecord

/-- One step of a backup session. -/
inductive BackupStep where
  | addHost (hostname : String) (outputs : List RunOutput) (seconds : UInt64)
  | addFailedHost (hostname error : String)
  | applyRetention (output : List UInt8)
  | applyIntegrity (output : List UInt8)
  | applySize (output : List UInt8)

/-- What a step makes of a record, and whether it fails. -/
def BackupStep.apply (s : BackupStep) (r : BackupRecord) :
    Logged (BackupRecord × Except Error Unit) :=
  match s with
  | .addHost hostname outputs seconds => r.addHost hostname outputs seconds
  | .addFailedHost hostname error => pure (r.addFailedHost hostname error, .ok ())
  | .applyRetention output => r.applyRetention output
  | .applyIntegrity output => do
    let r' ← r.applyIntegrity output
    pure (r', .ok ())
  | .applySize output => pure (r.applySize output)

/-- The records after each of some steps, with what the steps say; a failing step does not stop
the session. -/
def BackupStep.trace : List BackupStep → BackupRecord →
    Logged (List (BackupRecord × Except Error Unit))
  | [], _ => pure []
  | s :: later, r => do
    let result ← s.apply r
    let results ← trace later result.1
    pure (result :: results)

/-- The record at the end of a trace that started with `r`. -/
def BackupRecord.afterTrace (r : BackupRecord)
    (results : List (BackupRecord × Except Error Unit)) : BackupRecord :=
  (results.getLast?.map Prod.fst).getD r

/-! ## Restore sessions -/

namespace RestoreRecord

/-- Records a host that was restored. -/
def addHost (hostname : String) (seconds : UInt64) (r : RestoreRecord) : RestoreRecord :=
  ⟨r.hosts ++
    [{ hostname := hostname, phase := some .succeeded, duration := Duration.text seconds }]⟩

/-- Records a host on which the restore failed. -/
def addFailedHost (hostname : String) (seconds : UInt64) (error : String) (r : RestoreRecord) :
    RestoreRecord :=
  ⟨r.hosts ++
    [{ hostname := hostname, phase := some .failed, duration := Duration.text seconds,
       error := error }]⟩

/-- Whether some host failed. -/
def hasFailures (r : RestoreRecord) : Bool := r.hosts.any (·.phase == some .failed)

end RestoreRecord

/-- One step of a restore session. -/
inductive RestoreStep where
  | addHost (hostname : String) (seconds : UInt64)
  | addFailedHost (hostname : String) (seconds : UInt64) (error : String)

/-- What a step makes of a record. -/
def RestoreStep.apply (s : RestoreStep) (r : RestoreRecord) : RestoreRecord :=
  match s with
  | .addHost hostname seconds => r.addHost hostname seconds
  | .addFailedHost hostname seconds error => r.addFailedHost hostname seconds error

/-- The records after each of some steps. -/
def RestoreStep.trace : List RestoreStep → RestoreRecord → List RestoreRecord
  | [], _ => []
  | s :: later, r => s.apply r :: trace later (s.apply r)

end BackupReport
