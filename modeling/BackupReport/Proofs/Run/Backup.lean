import BackupReport.Proofs.Files.Growth
import BackupReport.Proofs.Run.CommandLine
import BackupReport.Proofs.Session.Trace

/-!
# Backup runs

A run reads all captured outputs from the tree as it finds it, and only then writes its record.  So
what it makes of them can be said of the tree before the run (`BuiltFrom`), whatever file the record
is written to, and so can what stops it (`Stopped`).  A run that is not stopped writes its record,
and its exit code says whether the host failed (`run_backup`).
-/

namespace BackupReport

open Files

variable {α : Type} {t t' : FileTree} {machine : Option String} {o : BackupOptions}

/-! ## Captured outputs -/

/-- The captured outputs of some backup runs, as a tree holds them. -/
def Captured (t : FileTree) (captures : List Capture) (outputs : List RunOutput) : Prop :=
  List.Forall₂ (fun capture output => output.path = capture.path ∧
    t.read (.ofString capture.file) = .ok output.bytes) captures outputs

/-- What the captured output of a run on the repository reports, as a tree holds it; nothing if no
file was given. -/
inductive Reports (t : FileTree) (extract : List UInt8 → Except Error α) :
    Option String → Option α → Prop
  | absent : Reports t extract none none
  | given {file : String} {bytes : List UInt8} {a : α} : t.read (.ofString file) = .ok bytes →
      extract bytes = .ok a → Reports t extract (some file) (some a)

/-- The captured output of a run on the repository cannot be read, or does not decode. -/
inductive Fails (t : FileTree) (extract : List UInt8 → Except Error α) : Option String → Prop
  | unread {file : String} {e : FileError} : t.read (.ofString file) = .error e →
      Fails t extract (some file)
  | undecoded {file : String} {bytes : List UInt8} {e : Error} :
      t.read (.ofString file) = .ok bytes → extract bytes = .error e → Fails t extract (some file)

theorem Reports.not_fails {extract : List UInt8 → Except Error α} {file : Option String}
    {a : Option α} (h : Reports t extract file a) : ¬ Fails t extract file := by
  intro hfails
  cases h with
  | absent => cases hfails
  | given hread hextract =>
    cases hfails with
    | unread h =>
      rw [hread] at h
      cases h
    | undecoded h he =>
      rw [hread] at h
      cases h
      rw [hextract] at he
      cases he

/-- The content of a file is read, and the tree stays as it is. -/
theorem readFile_run (file : String) (t : FileTree) :
    readFile FileTree.access file t =
      ((t.read (.ofString file)).mapError (unreadable file), t) := by
  have hread : FileTree.access.read (.ofString file) t = (t.read (.ofString file), t) := rfl
  unfold readFile
  rw [bind_run, hread]
  dsimp only
  cases t.read (.ofString file) <;> rfl

/-- Either all captured outputs are read, in order, or one of them cannot be read. -/
theorem readOutputs_cases (captures : List Capture) (t : FileTree) :
    (∃ outputs, Captured t captures outputs ∧
      readOutputs FileTree.access captures t = (.ok outputs, t)) ∨
    ∃ complaint, (∃ capture ∈ captures, ∃ e, t.read (.ofString capture.file) = .error e) ∧
      readOutputs FileTree.access captures t = (.error complaint, t) := by
  induction captures with
  | nil => exact .inl ⟨[], .nil, rfl⟩
  | cons capture later ih =>
    unfold readOutputs
    rw [bind_run, readFile_run]
    cases hread : t.read (.ofString capture.file) with
    | error e => exact .inr ⟨_, ⟨capture, List.mem_cons_self, e, hread⟩, rfl⟩
    | ok bytes =>
      rcases ih with ⟨outputs, hcaptured, hlater⟩ | ⟨complaint, ⟨c, hc, hfails⟩, hlater⟩
      · refine .inl ⟨⟨capture.path, bytes⟩ :: outputs, .cons ⟨rfl, hread⟩ hcaptured, ?_⟩
        change (readOutputs FileTree.access later >>= _) t = _
        rw [bind_run, hlater]
        rfl
      · refine .inr ⟨complaint, ⟨c, List.mem_cons_of_mem _ hc, hfails⟩, ?_⟩
        change (readOutputs FileTree.access later >>= _) t = _
        rw [bind_run, hlater]
        rfl

/-- To apply an output to a record is to set what is extracted from it; where nothing can be
extracted there is a complaint. -/
structure Applies (extract : List UInt8 → Except Error α) (set : α → BackupRecord → BackupRecord)
    (apply : String → List UInt8 → BackupRecord → Except String BackupRecord) : Prop where
  ok : ∀ (file : String) {bytes : List UInt8} (r : BackupRecord) {a : α}, extract bytes = .ok a →
    apply file bytes r = .ok (set a r)
  error : ∀ (file : String) {bytes : List UInt8} (r : BackupRecord) {e : Error},
    extract bytes = .error e → ∃ complaint, apply file bytes r = .error complaint

/-- A captured output is applied if it was given, or it stops the run. -/
theorem Applies.applyFile_cases {extract : List UInt8 → Except Error α}
    {set : α → BackupRecord → BackupRecord}
    {apply : String → List UInt8 → BackupRecord → Except String BackupRecord}
    (h : Applies extract set apply) (file : Option String) (r : BackupRecord) (t : FileTree) :
    (∃ a, Reports t extract file a ∧
      applyFile FileTree.access file apply r t = (.ok (a.elim r fun a => set a r), t)) ∨
    ∃ complaint, Fails t extract file ∧
      applyFile FileTree.access file apply r t = (.error complaint, t) := by
  cases file with
  | none => exact .inl ⟨none, .absent, rfl⟩
  | some file =>
    unfold applyFile
    dsimp only
    rw [bind_run, readFile_run]
    cases hread : t.read (.ofString file) with
    | error e => exact .inr ⟨_, .unread hread, rfl⟩
    | ok bytes =>
      change (∃ a, _ ∧ (apply file bytes r, t) = _) ∨ ∃ complaint, _ ∧ (apply file bytes r, t) = _
      cases hextract : extract bytes with
      | ok a => exact .inl ⟨some a, .given hread hextract, by rw [h.ok file r hextract]; rfl⟩
      | error e =>
        obtain ⟨complaint, hcomplaint⟩ := h.error file r hextract
        exact .inr ⟨complaint, .undecoded hread hextract, by rw [hcomplaint]⟩

/-! ## The record of a run -/

/-- The totals that the output of a retention run reports, without what is noted on the way. -/
def retentionReport (output : List UInt8) : Except Error Retention.Totals :=
  (Retention.totals output).value

/-- The integrity that the output of a check reports; every output reports one. -/
def integrityReport (output : List UInt8) : Except Error Bool := .ok (Integrity.check output).value

/-- The record that a run builds from the outputs that were captured: one host, and of the
repository what the outputs that were given report. -/
structure BuiltFrom (t : FileTree) (machine : Option String) (o : BackupOptions)
    (outputs : List RunOutput) (r : BackupRecord) : Prop where
  captured : Captured t o.snapshots outputs
  host : ∃ h result, r.hosts = [h] ∧
    BackupStep.Yields (.addHost (resolveHost o.host machine) outputs o.seconds) (some h) result
  integrity : Reports t integrityReport o.check r.repository.integrity
  size : ∃ size, Reports t RepositorySize.text o.stats size ∧ r.repository.size = size.getD ""
  totals : ∃ totals, Reports t retentionReport o.forget totals ∧
    (⟨r.repository.snapshotCount, r.repository.removedCount⟩ : Retention.Totals) =
      totals.getD ⟨0, 0⟩

/-- What stops a run: a captured output cannot be read, that of a retention run or of a statistics
run does not decode, or the file of the record cannot be written. -/
inductive Stopped (t : FileTree) (o : BackupOptions) : Prop
  | snapshot {capture : Capture} {e : FileError} : capture ∈ o.snapshots →
      t.read (.ofString capture.file) = .error e → Stopped t o
  | retention : Fails t retentionReport o.forget → Stopped t o
  | integrity : Fails t integrityReport o.check → Stopped t o
  | size : Fails t RepositorySize.text o.stats → Stopped t o
  | unwritable : ¬ t.Writable (.ofString o.output) → Stopped t o

theorem BuiltFrom.not_stopped {outputs : List RunOutput} {r : BackupRecord}
    (h : BuiltFrom t machine o outputs r) (hwritable : t.Writable (.ofString o.output)) :
    ¬ Stopped t o := by
  intro hstopped
  cases hstopped with
  | snapshot hmem hread =>
    obtain ⟨output, -, -, hok⟩ := exists_match h.captured hmem
    rw [hok] at hread
    cases hread
  | retention hfails =>
    obtain ⟨totals, hreports, -⟩ := h.totals
    exact hreports.not_fails hfails
  | integrity hfails => exact h.integrity.not_fails hfails
  | size hfails =>
    obtain ⟨size, hreports, -⟩ := h.size
    exact hreports.not_fails hfails
  | unwritable hnot => exact hnot hwritable

theorem applies_retention : Applies retentionReport
    (fun n r => { r with repository :=
      { r.repository with snapshotCount := n.kept, removedCount := n.removed } })
    (fun file bytes r => orComplain "forget" file (r.applyRetention bytes).value) where
  ok _ _ _ _ h := by
    unfold retentionReport at h
    simp only [BackupRecord.applyRetention, Logged.value_bind, h]
    rfl
  error _ _ _ _ h := by
    unfold retentionReport at h
    simp only [BackupRecord.applyRetention, Logged.value_bind, h]
    exact ⟨_, rfl⟩

theorem applies_integrity : Applies integrityReport
    (fun passed r => { r with repository := { r.repository with integrity := some passed } })
    (fun _ bytes r => .ok (r.applyIntegrity bytes).value) where
  ok _ _ r _ h := by
    cases h
    rw [BackupRecord.applyIntegrity_value]
  error _ _ _ _ h := by cases h

theorem applies_size : Applies RepositorySize.text
    (fun size r => { r with repository := { r.repository with size := size } })
    (fun file bytes r => orComplain "stats" file (r.applySize bytes)) where
  ok _ _ _ _ h := by
    simp only [BackupRecord.applySize, h]
    rfl
  error _ _ _ _ h := by
    simp only [BackupRecord.applySize, h]
    exact ⟨_, rfl⟩

/-- The repository of which some outputs report. -/
def Repository.ofReports (totals : Option Retention.Totals) (passed : Option Bool)
    (size : Option String) : Repository :=
  { integrity := passed
    size := size.getD ""
    snapshotCount := (totals.getD ⟨0, 0⟩).kept
    removedCount := (totals.getD ⟨0, 0⟩).removed }

/-- The captured outputs of the runs on the repository are applied to a record that knows nothing of
the repository, or one of them stops the run. -/
theorem applyRepositoryFiles_cases (o : BackupOptions) (hosts : List HostBackup) (t : FileTree) :
    (∃ totals passed size, Reports t retentionReport o.forget totals ∧
      Reports t integrityReport o.check passed ∧ Reports t RepositorySize.text o.stats size ∧
      applyRepositoryFiles FileTree.access o ⟨hosts, {}⟩ t =
        (.ok ⟨hosts, .ofReports totals passed size⟩, t)) ∨
    ∃ complaint, Stopped t o ∧
      applyRepositoryFiles FileTree.access o ⟨hosts, {}⟩ t = (.error complaint, t) := by
  unfold applyRepositoryFiles
  rw [bind_run]
  rcases applies_retention.applyFile_cases o.forget ⟨hosts, {}⟩ t with
    ⟨totals, htotals, hrun⟩ | ⟨complaint, hfails, hrun⟩
  · rw [hrun]
    dsimp only
    rw [bind_run]
    rcases applies_integrity.applyFile_cases o.check _ t with
      ⟨passed, hpassed, hrun⟩ | ⟨complaint, hfails, hrun⟩
    · rw [hrun]
      dsimp only
      rcases applies_size.applyFile_cases o.stats _ t with
        ⟨size, hsize, hrun⟩ | ⟨complaint, hfails, hrun⟩
      · rw [hrun]
        refine .inl ⟨totals, passed, size, htotals, hpassed, hsize, ?_⟩
        cases totals <;> cases passed <;> cases size <;> rfl
      · exact .inr ⟨complaint, .size hfails, hrun⟩
    · exact .inr ⟨complaint, .integrity hfails, by rw [hrun]; rfl⟩
  · exact .inr ⟨complaint, .retention hfails, by rw [hrun]; rfl⟩

/-- The first host of a record is the only one. -/
theorem addHost_value (hostname : String) (outputs : List RunOutput) (seconds : UInt64) :
    ∃ h result, BackupStep.Yields (.addHost hostname outputs seconds) (some h) result ∧
      (BackupRecord.addHost hostname outputs seconds {}).value = (⟨[h], {}⟩, result) := by
  obtain ⟨added, result, hyields, happly⟩ :=
    (BackupStep.addHost hostname outputs seconds).apply_value {}
  obtain ⟨h, rfl⟩ : ∃ h, added = some h := by cases hyields <;> exact ⟨_, rfl⟩
  exact ⟨h, result, hyields, happly⟩

/-- The record of a run has a failure if some output does not decode, which is whether its host
failed. -/
theorem BuiltFrom.hasFailures_cases {outputs : List RunOutput} {r : BackupRecord}
    (h : BuiltFrom t machine o outputs r) :
    r.hasFailures = true ∧ (∃ h ∈ r.hosts, h.phase = some .failed) ∧
        (∃ output ∈ outputs, ∃ e, (Snapshot.ofOutput output.path output.bytes).value = .error e) ∨
      r.hasFailures = false ∧ (∀ h ∈ r.hosts, h.phase = some .succeeded) ∧
        ∀ output ∈ outputs, ∃ s, (Snapshot.ofOutput output.path output.bytes).value = .ok s := by
  obtain ⟨host, result, hhosts, hyields⟩ := h.host
  rw [BackupRecord.hasFailures, hhosts]
  simp only [List.mem_singleton, exists_eq_left, forall_eq]
  rcases hyields.phase_eq with ⟨hphase, hok⟩ | ⟨hphase, hfails⟩
  · exact .inr ⟨by simp [hphase], hphase, hok⟩
  · exact .inl ⟨by simp [hphase], hphase, hfails⟩

/-! ## Whole runs -/

/-- A run that is stopped exits with 4 and leaves a tree with more directories at most. -/
structure Ends (t : FileTree) (ended : Outcome × FileTree) : Prop where
  code : ended.1.code = 4
  grown : Grown (fun _ => True) t ended.2

/-- A record is written, and the exit code says whether it has a failed host; or it cannot be
written. -/
theorem finish_ends (output : String) (text : List Char) (failed : Bool) (warning : String)
    (t : FileTree) :
    (∃ t', FileTree.access.write (.ofString output) (Utf8.encode text) t = (.ok (), t') ∧
      finish FileTree.access output text failed warning t =
        ({ code := if failed then 3 else 0, err := warning }, t')) ∨
    ¬ t.Writable (.ofString output) ∧
      Ends t (finish FileTree.access output text failed warning t) := by
  unfold finish
  rw [bind_run]
  by_cases hwritable : t.Writable (.ofString output)
  · obtain ⟨t', hw⟩ := hwritable.write (Utf8.encode text)
    exact .inl ⟨t', hw, by rw [Archive.write_of_write hw]; rfl⟩
  · obtain ⟨e, t', hw⟩ := FileTree.write_of_not_writable hwritable (Utf8.encode text)
    rw [Archive.write_of_error hw]
    exact .inr ⟨hwritable, rfl, FileTree.grown_write (FileTree.leadsTo_any _ t) hw⟩

theorem finish_cases (output : String) (text : List Char) (failed : Bool) (warning : String)
    (t : FileTree) :
    (∃ t', FileTree.access.write (.ofString output) (Utf8.encode text) t = (.ok (), t') ∧
      finish FileTree.access output text failed warning t =
        ({ code := if failed then 3 else 0, err := warning }, t')) ∨
    ¬ t.Writable (.ofString output) ∧
      (finish FileTree.access output text failed warning t).1.code = 4 :=
  (finish_ends output text failed warning t).imp_right fun ⟨hnot, hends⟩ => ⟨hnot, hends.code⟩

/-- A run is stopped, or it writes the record that it builds. -/
theorem runBackup_ends (machine : Option String) (o : BackupOptions) (t : FileTree) :
    (Stopped t o ∧ Ends t (runBackup FileTree.access machine o t)) ∨
    ∃ outputs r warning t', BuiltFrom t machine o outputs r ∧
      FileTree.access.write (.ofString o.output) (Utf8.encode r.json) t = (.ok (), t') ∧
      runBackup FileTree.access machine o t =
        ({ code := if r.hasFailures then 3 else 0, err := warning }, t') := by
  unfold runBackup
  rw [bind_run]
  rcases readOutputs_cases o.snapshots t with
    ⟨outputs, hcaptured, hrun⟩ | ⟨complaint, ⟨capture, hmem, e, he⟩, hrun⟩
  · rw [hrun]
    dsimp only
    obtain ⟨h, result, hyields, hvalue⟩ :=
      addHost_value (resolveHost o.host machine) outputs o.seconds
    -- what was logged while the host was added does not count any more
    generalize BackupRecord.addHost (resolveHost o.host machine) outputs o.seconds {} = logged
      at hvalue ⊢
    obtain ⟨_, events⟩ := logged
    cases hvalue
    rw [bind_run]
    rcases applyRepositoryFiles_cases o [h] t with
      ⟨totals, passed, size, htotals, hpassed, hsize, hrun⟩ | ⟨complaint, hstopped, hrun⟩
    · rw [hrun]
      dsimp only
      have hbuilt : BuiltFrom t machine o outputs ⟨[h], .ofReports totals passed size⟩ :=
        ⟨hcaptured, ⟨h, result, rfl, hyields⟩, hpassed, ⟨size, hsize, rfl⟩, totals, htotals, rfl⟩
      rcases finish_ends o.output (BackupRecord.json _) (BackupRecord.hasFailures _) _ t with
        ⟨t', hw, hfinish⟩ | ⟨hnot, hends⟩
      · exact .inr ⟨outputs, _, _, t', hbuilt, hw, hfinish⟩
      · exact .inl ⟨.unwritable hnot, hends⟩
    · rw [hrun]
      exact .inl ⟨hstopped, rfl, .refl _ t⟩
  · rw [hrun]
    exact .inl ⟨.snapshot hmem he, rfl, .refl _ t⟩

theorem runBackup_cases (machine : Option String) (o : BackupOptions) (t : FileTree) :
    (Stopped t o ∧ (runBackup FileTree.access machine o t).1.code = 4) ∨
    ∃ outputs r warning t', BuiltFrom t machine o outputs r ∧
      FileTree.access.write (.ofString o.output) (Utf8.encode r.json) t = (.ok (), t') ∧
      runBackup FileTree.access machine o t =
        ({ code := if r.hasFailures then 3 else 0, err := warning }, t') :=
  (runBackup_ends machine o t).imp_left fun ⟨hstopped, hends⟩ => ⟨hstopped, hends.code⟩

/-- What a backup run ends with. -/
structure BackupRun (t : FileTree) (machine : Option String) (o : BackupOptions)
    (outcome : Outcome) (t' : FileTree) : Prop where
  stopped : outcome.code = 4 ↔ Stopped t o
  written : ¬ Stopped t o → ∃ outputs r, BuiltFrom t machine o outputs r ∧
    t'.read (.ofString o.output) = .ok (Utf8.encode r.json) ∧
    (outcome.code = 3 ∧ (∃ h ∈ r.hosts, h.phase = some .failed) ∧
        (∃ output ∈ outputs, ∃ e, (Snapshot.ofOutput output.path output.bytes).value = .error e) ∨
      outcome.code = 0 ∧ (∀ h ∈ r.hosts, h.phase = some .succeeded) ∧
        ∀ output ∈ outputs, ∃ s, (Snapshot.ofOutput output.path output.bytes).value = .ok s)

/-- A backup run exits with 4 exactly if it is stopped.  Otherwise its file holds the record that it
has built from the outputs as they were captured before the run, and it exits with 3 or 0, by
whether some backup output does not decode, which is whether the host failed. -/
theorem run_backup {arguments : List String} (h : Command.ofArguments arguments = .ok (.backup o))
    (machine : Option String) (t : FileTree) :
    BackupRun t machine o (run FileTree.access machine arguments t).1
      (run FileTree.access machine arguments t).2 := by
  rw [run_command FileTree.access h]
  change BackupRun t machine o (runBackup FileTree.access machine o t).1
    (runBackup FileTree.access machine o t).2
  rcases runBackup_cases machine o t with
    ⟨hstopped, hcode⟩ | ⟨outputs, r, warning, t', hbuilt, hw, hrun⟩
  · exact ⟨⟨fun _ => hstopped, fun _ => hcode⟩, fun hnot => absurd hstopped hnot⟩
  · have hnot : ¬ Stopped t o := hbuilt.not_stopped ⟨_, t', hw⟩
    rw [hrun]
    refine ⟨⟨fun hcode => ?_, fun hstopped => absurd hstopped hnot⟩, fun _ => ?_⟩
    · dsimp only at hcode
      split at hcode <;> cases hcode
    · refine ⟨outputs, r, hbuilt, FileTree.read_of_write hw, ?_⟩
      rcases hbuilt.hasFailures_cases with ⟨hfailures, hfails⟩ | ⟨hfailures, hok⟩
      · exact .inl ⟨by rw [hfailures]; rfl, hfails⟩
      · exact .inr ⟨by rw [hfailures]; rfl, hok⟩

/-- A run that writes its record over the only output that it has captured. -/
theorem run_backup_over_capture :
    Command.ofArguments ["backup", "--output", "c", "--snapshot", "p=c"] =
      .ok (.backup { output := "c", snapshots := [⟨"p", "c"⟩] }) ∧
    BackupRun ((FileTree.empty []).put ["c"] (.file [])) none
      { output := "c", snapshots := [⟨"p", "c"⟩] }
      (run FileTree.access none ["backup", "--output", "c", "--snapshot", "p=c"]
        ((FileTree.empty []).put ["c"] (.file []))).1
      (run FileTree.access none ["backup", "--output", "c", "--snapshot", "p=c"]
        ((FileTree.empty []).put ["c"] (.file []))).2 :=
  ⟨by decide +kernel, run_backup (by decide +kernel) none _⟩

end BackupReport
