import BackupReport.Proofs.Files.Growth
import BackupReport.Proofs.RoundTrip.Records

/-!
# Records that are written and read over time

Records of both kinds are written to files and read from them, in any order and over paths that may
be in each other's way.  What is read from a file is the record that was written there last,
whatever became of the writes in between; a write touches its own file only, and directories around
it (`history_law`).
-/

namespace BackupReport

open Files

/-! ## Reading and writing on one tree -/

namespace Files

variable {t t' : FileTree} {p p' : Path} {bytes : List UInt8}

/-- A tree holds what another one holds, apart from one file with its content and from directories
around that file which were missing. -/
structure FileSet (place : Place) (bytes : List UInt8) (t t' : FileTree) : Prop where
  start : t'.start = t.start
  free : t.entry? place ≠ some .directory
  content : t'.entry? place = some (.file bytes)
  others : ∀ q, q ≠ place → t'.entry? q = t.entry? q ∨
    Around q place ∧ t.entry? q = none ∧ t'.entry? q = some .directory

theorem FileSet.within {place : Place} (h : FileSet place bytes t t') : t.Within t' := by
  intro q hq
  have hne : q ≠ place := by
    rintro rfl
    exact h.free hq
  rcases h.others q hne with hsame | ⟨-, hnone, -⟩
  · rw [hsame, hq]
  · rw [hq] at hnone
    cases hnone

theorem Grown.within {new : Place → Prop} (h : Grown new t t') : t.Within t' :=
  fun _ hq => h.entry_eq hq

/-- A file is still read from a tree that has grown. -/
theorem Grown.read {new : Place → Prop} (h : Grown new t t') (hread : t.read p = .ok bytes) :
    t'.read p = .ok bytes := by
  obtain ⟨place, hplace, hentry, hslash⟩ := FileTree.read_ok_iff.mp hread
  exact FileTree.read_ok_iff.mpr
    ⟨place, h.within.place h.start hplace, h.entry_eq hentry, hslash⟩

/-- A file is still read after another one has been set. -/
theorem FileSet.read {place place' : Place} {bytes' : List UInt8}
    (h : FileSet place' bytes' t t') (hplace : t.place p = .ok place) (hne : place ≠ place')
    (hread : t.read p = .ok bytes) : t'.read p = .ok bytes := by
  obtain ⟨found, hfound, hentry, hslash⟩ := FileTree.read_ok_iff.mp hread
  rw [hplace] at hfound
  cases hfound
  refine FileTree.read_ok_iff.mpr ⟨place, h.within.place h.start hplace, ?_, hslash⟩
  rcases h.others place hne with hsame | ⟨-, hnone, -⟩
  · rw [hsame, hentry]
  · rw [hentry] at hnone
    cases hnone

/-- A file that is written at a plain path is set at the place that the path leads to. -/
theorem fileSet_of_write (hp : p.Plain)
    (h : FileTree.access.write p bytes t = (.ok (), t')) :
    FileSet (t.target p) bytes t t' ∧ p.slashEnded = false := by
  obtain ⟨t₁, place, hgrown, hplace, hslash, hentry, rfl⟩ :=
    FileTree.write_put (FileTree.leadsTo_plain hp t) h
  obtain rfl : place = t.target p := by
    rw [FileTree.place_plain hp hplace, FileTree.target, FileTree.target, hgrown.start]
  refine ⟨⟨hgrown.start, fun hdir => hentry (hgrown.entry_eq hdir),
    FileTree.entry?_put_self (FileTree.ne_root_of_not_directory hentry) _, fun q hq => ?_⟩, hslash⟩
  rw [FileTree.entry?_put_of_ne hq]
  exact hgrown.entry q

/-- Plain paths that lead to the same place are the same, unless one of them asks for a
directory. -/
theorem eq_of_target_eq (hp : p.Plain) (hp' : p'.Plain) (hslash : p.slashEnded = p'.slashEnded)
    (h : t.target p = t.target p') : p = p' := by
  have hnames : p.names = p'.names := List.reverse_injective (List.append_cancel_right h)
  obtain ⟨absolute, names, slashEnded⟩ := p
  obtain ⟨absolute', names', slashEnded'⟩ := p'
  obtain ⟨rfl, -⟩ := hp
  obtain ⟨rfl, -⟩ := hp'
  cases hnames
  cases hslash
  rfl

/-- What is read at a plain path does not change with what is written at another one. -/
theorem read_of_write_other (hp : p.Plain) (hp' : p'.Plain) (hne : p ≠ p')
    {bytes' : List UInt8} (h : FileTree.access.write p' bytes' t = (.ok (), t'))
    (hread : t.read p = .ok bytes) : t'.read p = .ok bytes := by
  obtain ⟨hset, hslash'⟩ := fileSet_of_write hp' h
  obtain ⟨place, hplace, -, hslash⟩ := FileTree.read_ok_iff.mp hread
  have htarget := FileTree.place_plain hp hplace
  refine hset.read hplace (fun heq => hne ?_) hread
  exact eq_of_target_eq hp hp' (hslash.trans hslash'.symm) (htarget.symm.trans heq)

end Files

namespace Archive

/-! ## Histories -/

/-- The kinds of records. -/
inductive RecordKind where
  | backup
  | restore
deriving DecidableEq

/-- A record of either kind. -/
inductive Record where
  | backup (r : BackupRecord)
  | restore (r : RestoreRecord)
deriving DecidableEq

/-- The kind of a record. -/
def Record.kind : Record → RecordKind
  | .backup _ => .backup
  | .restore _ => .restore

/-- The text of a record. -/
def Record.json : Record → List Char
  | .backup r => r.json
  | .restore r => r.json

/-- What is done with a file: a record is written to it, or one of some kind is read from it. -/
inductive FileStep where
  | write (path : String) (r : Record)
  | read (path : String) (kind : RecordKind)

/-- The file that a step is about. -/
def FileStep.path : FileStep → Path
  | .write path _ => .ofString path
  | .read path _ => .ofString path

/-- What was done with a file, and what came of it. -/
inductive Done where
  | written (path : String) (r : Record) (result : Except Error Unit)
  | read (path : String) (kind : RecordKind) (result : Except Error Record)
deriving DecidableEq

/-- The file that something was done with. -/
def Done.path : Done → Path
  | .written path _ _ => .ofString path
  | .read path _ _ => .ofString path

/-- Takes a step on a tree. -/
def FileStep.run : FileStep → StateM FileTree Done
  | .write path r => do
    let written ← Archive.write FileTree.access path r.json
    pure (.written path r written.value)
  | .read path .backup => do
    let r ← readBackup FileTree.access path
    pure (.read path .backup (.backup <$> r.value))
  | .read path .restore => do
    let r ← readRestore FileTree.access path
    pure (.read path .restore (.restore <$> r.value))

/-- Takes some steps in order. -/
def runAll : List FileStep → StateM FileTree (List Done)
  | [] => pure []
  | step :: later => do
    let done ← step.run
    let history ← runAll later
    pure (done :: history)

/-- The record that is known to be at a path, after one more thing was done.  Only a write that
succeeds counts, and only at this path. -/
def Done.update (p : Path) (known : Option Record) : Done → Option Record
  | .written path r (.ok ()) => if Path.ofString path = p then some r else known
  | .written _ _ (.error _) => known
  | .read .. => known

/-- The record that was written last at a path. -/
def lastWritten (p : Path) (history : List Done) : Option Record :=
  history.foldl (Done.update p) none

/-! ## What a file holds -/

variable {t t' : FileTree} {p : Path} {known : Option Record}

/-- The file at a path holds a record, if one is known to be there. -/
def Holds (t : FileTree) (p : Path) (known : Option Record) : Prop :=
  ∀ r, known = some r → t.read p = .ok (Utf8.encode r.json)

/-- A step that reads leaves the tree as it is. -/
theorem read_run_tree (path : String) (kind : RecordKind) (t : FileTree) :
    ((FileStep.read path kind).run t).2 = t := by
  cases kind with
  | backup => exact read_tree BackupRecord.ofBytes path t
  | restore => exact read_tree RestoreRecord.ofBytes path t

theorem read_run_update (path : String) (kind : RecordKind) (t : FileTree) :
    ((FileStep.read path kind).run t).1.update p known = known := by
  cases kind <;> rfl

/-- A step that writes succeeds or fails as the write of its text does. -/
theorem write_run (path : String) (r : Record) (t : FileTree) :
    (∃ t', FileTree.access.write (.ofString path) (Utf8.encode r.json) t = (.ok (), t') ∧
      (FileStep.write path r).run t = (.written path r (.ok ()), t')) ∨
    ∃ e t', FileTree.access.write (.ofString path) (Utf8.encode r.json) t = (.error e, t') ∧
      (FileStep.write path r).run t = (.written path r (.error (.file e)), t') := by
  unfold FileStep.run
  simp only [bind_run]
  cases hw : FileTree.access.write (.ofString path) (Utf8.encode r.json) t with
  | mk result t' =>
    cases result with
    | ok u => exact .inl ⟨t', rfl, by rw [write_of_write hw]; rfl⟩
    | error e => exact .inr ⟨e, t', rfl, by rw [write_of_error hw]; rfl⟩

/-- The steps of a history are about the files that something was done with. -/
theorem runAll_paths (steps : List FileStep) (t : FileTree) :
    (runAll steps t).1.map Done.path = steps.map FileStep.path := by
  induction steps generalizing t with
  | nil => rfl
  | cons step steps ih =>
    have hpath : (step.run t).1.path = step.path := by
      cases step with
      | read path kind => cases kind <;> rfl
      | write path r => rfl
    change (step.run t).1.path :: (runAll steps (step.run t).2).1.map Done.path = _
    rw [hpath, ih, List.map_cons]

/-- After each step a file holds the record that is known to be there. -/
theorem holds_step {step : FileStep} (hp : p.Plain) (hstep : step.path.Plain)
    (h : Holds t p known) : Holds (step.run t).2 p ((step.run t).1.update p known) := by
  cases step with
  | read path kind =>
    rw [read_run_tree, read_run_update]
    exact h
  | write path r =>
    rcases write_run path r t with ⟨t', hw, hrun⟩ | ⟨e, t', hw, hrun⟩
    · rw [hrun]
      intro r' hr'
      by_cases hpath : Path.ofString path = p
      · simp only [Done.update, if_pos hpath, Option.some.injEq] at hr'
        subst hr' hpath
        exact FileTree.read_of_write hw
      · simp only [Done.update, if_neg hpath] at hr'
        exact read_of_write_other hp hstep (Ne.symm hpath) hw (h r' hr')
    · rw [hrun]
      exact fun r' hr' => (FileTree.grown_write (FileTree.leadsTo_plain hstep t) hw).read (h r' hr')

/-- What is read from a file that holds a record of the same kind is this record. -/
theorem read_of_holds {path : String} {r : Record}
    (h : t.read (.ofString path) = .ok (Utf8.encode r.json)) :
    ((FileStep.read path r.kind).run t).1 = .read path r.kind (.ok r) := by
  cases r with
  | backup r =>
    have hvalue := (read_value BackupRecord.ofBytes h).1.trans (ofBytes_backup r)
    change Done.read path .backup (.backup <$> (readBackup FileTree.access path t).1.value) = _
    rw [readBackup, hvalue]
    rfl
  | restore r =>
    have hvalue := (read_value RestoreRecord.ofBytes h).1.trans (ofBytes_restore r)
    change Done.read path .restore (.restore <$> (readRestore FileTree.access path t).1.value) = _
    rw [readRestore, hvalue]
    rfl

/-- In a history over plain paths, what is read at a path where a record of that kind is known is
this record. -/
theorem read_of_known {steps : List FileStep} (hsteps : ∀ step ∈ steps, step.path.Plain)
    {earlier later : List Done} {path : String} {kind : RecordKind} {result : Except Error Record}
    (hrun : (runAll steps t).1 = earlier ++ .read path kind result :: later)
    (hp : (Path.ofString path).Plain) (h : Holds t (.ofString path) known) {r : Record}
    (hr : earlier.foldl (Done.update (.ofString path)) known = some r) (hkind : r.kind = kind) :
    result = .ok r := by
  induction steps generalizing t known earlier with
  | nil => cases earlier <;> cases hrun
  | cons step steps ih =>
    obtain ⟨hstep, hsteps⟩ := List.forall_mem_cons.mp hsteps
    change (step.run t).1 :: (runAll steps (step.run t).2).1 = _ at hrun
    cases earlier with
    | nil =>
      obtain ⟨hdone, -⟩ := List.cons.inj hrun
      -- this is the step that reads
      cases step with
      | write path' r' =>
        rcases write_run path' r' t with ⟨t', -, hwrite⟩ | ⟨e, t', -, hwrite⟩ <;>
          · rw [hwrite] at hdone
            cases hdone
      | read path' kind' =>
        obtain ⟨rfl, rfl⟩ : path' = path ∧ kind' = kind := by
          cases kind' <;> cases hdone <;> exact ⟨rfl, rfl⟩
        subst hkind
        rw [read_of_holds (h r hr)] at hdone
        cases hdone
        rfl
    | cons done earlier =>
      obtain ⟨hdone, hlater⟩ := List.cons.inj hrun
      subst hdone
      exact ih hsteps hlater (holds_step hp hstep h) hr

/-- The law of files that hold records.  However records are written and read over plain paths,
what is read as a record of the kind that was written last at the same path is that record.  A write
that succeeds sets one file, and adds only missing directories around it; a write that fails adds
missing directories there at most. -/
theorem history_law :
    (∀ (t : FileTree) (steps : List FileStep), (∀ step ∈ steps, step.path.Plain) →
      ∀ (earlier later : List Done) (path : String) (kind : RecordKind)
        (result : Except Error Record) (r : Record),
        (runAll steps t).1 = earlier ++ .read path kind result :: later →
        lastWritten (.ofString path) earlier = some r → r.kind = kind → result = .ok r) ∧
    ∀ (t : FileTree) (path : String) (r : Record), (Path.ofString path).Plain →
      (∀ t', (FileStep.write path r).run t = (.written path r (.ok ()), t') →
        FileSet (t.target (.ofString path)) (Utf8.encode r.json) t t') ∧
      ∀ e t', (FileStep.write path r).run t = (.written path r (.error e), t') →
        Grown (Around · (t.target (.ofString path))) t t' := by
  refine ⟨fun t steps hsteps earlier later path kind result r hrun hlast hkind => ?_,
    fun t path r hp => ?_⟩
  · have hpath : (Done.read path kind result).path ∈ steps.map FileStep.path := by
      rw [← runAll_paths steps t, hrun]
      exact List.mem_map_of_mem (List.mem_append_right _ List.mem_cons_self)
    obtain ⟨step, hstep, heq⟩ := List.mem_map.mp hpath
    have hp : (Done.read path kind result).path.Plain := heq ▸ hsteps step hstep
    have hnone : Holds t (.ofString path) none := fun r' h => by cases h
    exact read_of_known hsteps hrun hp hnone hlast hkind
  · rcases write_run path r t with ⟨t₁, hw, hrun⟩ | ⟨e₁, t₁, hw, hrun⟩
    · refine ⟨fun t' h => ?_, fun e t' h => ?_⟩
      · rw [hrun] at h
        cases h
        exact (fileSet_of_write hp hw).1
      · rw [hrun] at h
        cases h
    · refine ⟨fun t' h => ?_, fun e t' h => ?_⟩
      · rw [hrun] at h
        cases h
      · rw [hrun] at h
        cases h
        exact FileTree.grown_write (FileTree.leadsTo_plain hp t) hw

/-- A record is read from `d/o` after writes to `d`, where a directory is in the way, and to
`d/o/x`, where the file itself is.  A path that asks for a directory is not written, but the
directories on the way are there afterwards. -/
theorem history_law_blocked :
    (∃ result, (runAll [.write "d/o" (.backup {}), .write "d" (.restore {}),
        .write "d/o/x" (.restore {}), .read "d/o" .backup] (.empty [])).1 =
      [.written "d/o" (.backup {}) (.ok ()),
        .written "d" (.restore {}) (.error (.file .isDirectory)),
        .written "d/o/x" (.restore {}) (.error (.file .alreadyExists))] ++
        .read "d/o" .backup result :: [] ∧ result = .ok (.backup {})) ∧
    FileSet ["o", "d"] (Utf8.encode (Record.backup {}).json) (.empty [])
      ((FileStep.write "d/o" (.backup {})).run (.empty [])).2 ∧
    Grown (Around · ["o", "d"]) (.empty [])
      ((FileStep.write "d/o/" (.backup {})).run (.empty [])).2 := by
  have hpair : ∀ {x : Done × FileTree} {done : Done}, x.1 = done → x = (done, x.2) := by
    rintro ⟨_, _⟩ _ rfl
    rfl
  have hdone : ((FileStep.write "d/o" (.backup {})).run (.empty [])).1 =
      .written "d/o" (.backup {}) (.ok ()) := by decide +kernel
  have hfailed : ((FileStep.write "d/o/" (.backup {})).run (.empty [])).1 =
      .written "d/o/" (.backup {}) (.error (.file .isDirectory)) := by decide +kernel
  have hrun : (runAll [.write "d/o" (.backup {}), .write "d" (.restore {}),
      .write "d/o/x" (.restore {}), .read "d/o" .backup] (.empty [])).1 =
      [.written "d/o" (.backup {}) (.ok ()),
        .written "d" (.restore {}) (.error (.file .isDirectory)),
        .written "d/o/x" (.restore {}) (.error (.file .alreadyExists))] ++
        .read "d/o" .backup (.ok (.backup {})) :: [] := by decide +kernel
  have htarget : ∀ path ∈ ["d/o", "d/o/"], (FileTree.empty []).target (.ofString path) =
      ["o", "d"] := by decide +kernel
  have hset := (history_law.2 (.empty []) "d/o" (.backup {}) (by decide +kernel)).1 _ (hpair hdone)
  have hgrown := (history_law.2 (.empty []) "d/o/" (.backup {}) (by decide +kernel)).2 _ _
    (hpair hfailed)
  rw [htarget _ (by decide)] at hset hgrown
  exact ⟨⟨_, hrun, history_law.1 _ _ (by decide +kernel) _ _ _ _ _ _ hrun (by decide +kernel) rfl⟩,
    hset, hgrown⟩

end Archive

end BackupReport
