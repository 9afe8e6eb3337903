import BackupReport.Archive

/-!
# Files that are written and read again

What is written to a file is read from it (`read_of_write`), for no directory on the way to the file
changes with its content.  Whether a file can be written does not depend on what is written
(`Writable.write`), and reading leaves the tree as it is.
-/

namespace BackupReport

theorem map_eq_ok {ε α β : Type} {f : α → β} {x : Except ε α} {b : β} (h : f <$> x = .ok b) :
    ∃ a, x = .ok a ∧ f a = b := by
  cases x with
  | error e => cases h
  | ok a =>
    cases h
    exact ⟨a, rfl, rfl⟩

theorem bind_eq_ok {ε α β : Type} {x : Except ε α} {f : α → Except ε β} {b : β}
    (h : x >>= f = .ok b) : ∃ a, x = .ok a ∧ f a = .ok b := by
  cases x with
  | error e => cases h
  | ok a => exact ⟨a, rfl, h⟩

end BackupReport

namespace BackupReport.Files

variable {t t' : FileTree} {p : Path} {bytes : List UInt8}

/-- To run one computation on a state after another is to start the second where the first ended. -/
theorem bind_run {σ α β : Type} (x : StateM σ α) (f : α → StateM σ β) (s : σ) :
    (x >>= f) s = f (x s).1 (x s).2 := rfl

namespace FileTree

/-! ## Places -/

theorem entry?_put_self {place : Place} (hroot : place ≠ []) (e : Entry) :
    FileTree.entry? (t.put place e) place = some e := by
  simp [put, entry?, hroot]

theorem entry?_put_of_ne {place place' : Place} (hne : place' ≠ place) (e : Entry) :
    FileTree.entry? (t.put place e) place' = t.entry? place' := by
  simp [put, entry?, hne]

theorem ne_root_of_not_directory {place : Place} (h : t.entry? place ≠ some .directory) :
    place ≠ [] := by
  rintro rfl
  exact h rfl

/-- The directories of a tree are directories of another one. -/
def Within (t t' : FileTree) : Prop :=
  ∀ q, t.entry? q = some .directory → t'.entry? q = some .directory

/-- A name is only ever looked up in a directory, so that nothing is found elsewhere where the
directories are still there. -/
theorem Within.follow (hin : t.Within t') {place found : Place} {names : List String}
    (h : t.follow place names = .ok found) : t'.follow place names = .ok found := by
  induction names generalizing place with
  | nil => exact h
  | cons name later ih =>
    rw [FileTree.follow] at h ⊢
    cases hentry : t.entry? place with
    | none =>
      rw [hentry] at h
      cases h
    | some entry =>
      rw [hentry] at h
      cases entry with
      | file bytes => cases h
      | directory =>
        rw [hin place hentry]
        dsimp only at h ⊢
        by_cases hdot : name = "."
        · rw [if_pos hdot] at h ⊢
          exact ih h
        · by_cases hdots : name = ".."
          · rw [if_neg hdot, if_pos hdots] at h ⊢
            exact ih h
          · rw [if_neg hdot, if_neg hdots] at h ⊢
            split at h
            · cases h
            · rename_i hlimit
              rw [if_neg hlimit]
              exact ih h

theorem Within.place (hin : t.Within t') (hstart : t'.start = t.start) {found : Place}
    (h : t.place p = .ok found) : t'.place p = .ok found := by
  unfold FileTree.place at h ⊢
  obtain ⟨_, hcheck, h⟩ := bind_eq_ok h
  rw [hcheck, hstart]
  exact hin.follow h

/-- An entry that is put where no directory was is in nobody's way. -/
theorem within_put {q : Place} (hq : t.entry? q ≠ some .directory) (e : Entry) :
    t.Within (t.put q e) := by
  intro place hentry
  have hne : place ≠ q := by
    rintro rfl
    exact hq hentry
  rw [entry?_put_of_ne hne, hentry]

theorem place_put {q found : Place} {e : Entry} (hq : t.entry? q ≠ some .directory)
    (h : t.place p = .ok found) : (t.put q e).place p = .ok found :=
  (within_put hq e).place rfl h

/-! ## Content -/

/-- The content of a file is set where its path leads, and no directory is there. -/
theorem overwrite_ok (h : t.overwrite p bytes = .ok t') :
    ∃ place, t.place p = .ok place ∧ p.slashEnded = false ∧
      t.entry? place ≠ some .directory ∧ t' = t.put place (.file bytes) := by
  unfold overwrite at h
  obtain ⟨place, hplace, h⟩ := bind_eq_ok h
  split at h
  · cases h
  · rename_i hslash
    refine ⟨place, hplace, by simpa using hslash, ?_⟩
    split at h
    · cases h
    · rename_i hentry
      cases h
      exact ⟨hentry, rfl⟩

/-- What is read is the content of the file that stands where the path leads. -/
theorem read_ok_iff : t.read p = .ok bytes ↔
    ∃ place, t.place p = .ok place ∧ t.entry? place = some (.file bytes) ∧
      p.slashEnded = false := by
  unfold read
  constructor
  · intro h
    obtain ⟨place, hplace, h⟩ := bind_eq_ok h
    split at h
    · cases h
    · cases h
    · rename_i hentry
      split at h
      · cases h
      · rename_i hslash
        cases h
        exact ⟨place, hplace, hentry, by simpa using hslash⟩
  · rintro ⟨place, hplace, hentry, hslash⟩
    simp only [hplace, bind, Except.bind, hentry, hslash]
    rfl

/-- The content that was set is read. -/
theorem read_of_overwrite (h : t.overwrite p bytes = .ok t') : t'.read p = .ok bytes := by
  obtain ⟨place, hplace, hslash, hentry, rfl⟩ := overwrite_ok h
  exact read_ok_iff.mpr ⟨place, place_put hentry hplace,
    entry?_put_self (ne_root_of_not_directory hentry) _, hslash⟩

/-- Whether the content of a file can be set does not depend on the content. -/
theorem overwrite_any (h : t.overwrite p bytes = .ok t') (bytes' : List UInt8) :
    ∃ t'', t.overwrite p bytes' = .ok t'' := by
  obtain ⟨place, hplace, hslash, hentry, -⟩ := overwrite_ok h
  refine ⟨t.put place (.file bytes'), ?_⟩
  unfold overwrite
  rw [hplace]
  change (if p.slashEnded = true then _ else _) = _
  rw [hslash]
  cases he : t.entry? place with
  | none => rfl
  | some e =>
    cases e with
    | file _ => rfl
    | directory => exact absurd he hentry

/-! ## Writing -/

theorem access_overwrite_ok (h : t.overwrite p bytes = .ok t') :
    access.overwrite p bytes t = (.ok (), t') := by
  simp only [access, h]

theorem access_overwrite_error {e : FileError} (h : t.overwrite p bytes = .error e) :
    access.overwrite p bytes t = (.error e, t) := by
  simp only [access, h]

/-- A file is written if the directories on the way to it are there or can be created, and its
content can then be set. -/
theorem write_ok (h : access.write p bytes t = (.ok (), t')) :
    ∃ t₁, access.createParents p t = (.ok (), t₁) ∧ t₁.overwrite p bytes = .ok t' := by
  unfold Access.write at h
  rw [bind_run] at h
  generalize access.createParents p t = created at h ⊢
  obtain ⟨⟨e⟩ | ⟨⟩, t₁⟩ := created
  · cases h
  · refine ⟨t₁, rfl, ?_⟩
    dsimp only at h
    cases ho : t₁.overwrite p bytes with
    | error e =>
      rw [access_overwrite_error ho] at h
      cases h
    | ok t₂ =>
      rw [access_overwrite_ok ho] at h
      cases h
      rfl

theorem write_of_overwrite {t₁ : FileTree} (hcreate : access.createParents p t = (.ok (), t₁))
    (h : t₁.overwrite p bytes = .ok t') : access.write p bytes t = (.ok (), t') := by
  unfold Access.write
  rw [bind_run, hcreate]
  exact access_overwrite_ok h

/-- What is written to a file is read from it. -/
theorem read_of_write (h : access.write p bytes t = (.ok (), t')) : t'.read p = .ok bytes := by
  obtain ⟨t₁, -, h⟩ := write_ok h
  exact read_of_overwrite h

/-- The file that a path names can be written. -/
def Writable (t : FileTree) (p : Path) : Prop := ∃ bytes t', access.write p bytes t = (.ok (), t')

/-- A file that can be written can be written with any content. -/
theorem Writable.write (h : t.Writable p) (bytes : List UInt8) :
    ∃ t', access.write p bytes t = (.ok (), t') := by
  obtain ⟨bytes', t', h⟩ := h
  obtain ⟨t₁, hcreate, ho⟩ := write_ok h
  obtain ⟨t₂, ho⟩ := overwrite_any ho bytes
  exact ⟨t₂, write_of_overwrite hcreate ho⟩

theorem write_of_not_writable (h : ¬ t.Writable p) (bytes : List UInt8) :
    ∃ e t', access.write p bytes t = (.error e, t') := by
  cases hw : access.write p bytes t with
  | mk result t' =>
    cases result with
    | error e => exact ⟨e, t', rfl⟩
    | ok u => exact absurd ⟨bytes, t', hw⟩ h

end FileTree

end BackupReport.Files

namespace BackupReport.Archive

open Files

variable {t t' : FileTree}

/-! ## Records -/

/-- A record is written if its file is. -/
theorem write_of_write {path : String} {text : List Char}
    (h : FileTree.access.write (.ofString path) (Utf8.encode text) t = (.ok (), t')) :
    write FileTree.access path text t = (⟨.ok (), [.recordWritten path]⟩, t') := by
  unfold write
  rw [bind_run, h]
  rfl

theorem write_of_error {path : String} {text : List Char} {e : FileError}
    (h : FileTree.access.write (.ofString path) (Utf8.encode text) t = (.error e, t')) :
    write FileTree.access path text t = (⟨.error (.file e), []⟩, t') := by
  unfold write
  rw [bind_run, h]
  rfl

theorem write_ok {path : String} {text : List Char}
    (h : (write FileTree.access path text t).1.value = .ok ()) :
    ∃ t', FileTree.access.write (.ofString path) (Utf8.encode text) t = (.ok (), t') ∧
      (write FileTree.access path text t).2 = t' := by
  cases hw : FileTree.access.write (.ofString path) (Utf8.encode text) t with
  | mk result t' =>
    cases result with
    | ok u => exact ⟨t', rfl, by rw [write_of_write hw]⟩
    | error e =>
      rw [write_of_error hw] at h
      cases h

/-- To read a record leaves the tree as it is, whether it succeeds or not. -/
theorem read_tree {α : Type} (ofBytes : List UInt8 → Except Error α) (path : String)
    (t : FileTree) : (read FileTree.access ofBytes path t).2 = t := by
  have hread : FileTree.access.read (.ofString path) t = (t.read (.ofString path), t) := rfl
  unfold read
  rw [bind_run, hread]
  cases t.read (.ofString path) with
  | error e => rfl
  | ok bytes =>
    dsimp only
    cases ofBytes bytes <;> rfl

/-- To read a record is to read its file and to decode what it holds; the tree stays as it is. -/
theorem read_value {α : Type} (ofBytes : List UInt8 → Except Error α) {path : String}
    {bytes : List UInt8} (h : t.read (.ofString path) = .ok bytes) :
    (read FileTree.access ofBytes path t).1.value = ofBytes bytes ∧
      (read FileTree.access ofBytes path t).2 = t := by
  refine ⟨?_, read_tree ofBytes path t⟩
  have hread : FileTree.access.read (.ofString path) t = (.ok bytes, t) := by
    change (t.read (.ofString path), t) = _
    rw [h]
  unfold read
  rw [bind_run, hread]
  dsimp only
  cases ofBytes bytes <;> rfl

end BackupReport.Archive
