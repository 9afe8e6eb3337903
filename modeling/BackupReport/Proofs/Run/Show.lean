import BackupReport.Proofs.RoundTrip.Records
import BackupReport.Proofs.Run.Backup

/-!
# Records that are written and shown

A record that a run has written is what a later run shows: as JSON the later run prints the bytes of
the file, and otherwise the listing of the record (`write_then_show`).  Only the blanks at the end
of a text are not printed, and a record as JSON has none there (`trimEnd_object`).
-/

namespace BackupReport

open Files Json

variable {t t' : FileTree} {file : String}

/-! ## What is printed -/

/-- A text that ends with a brace is printed to its end. -/
theorem trimEnd_object (members : List (String × Tree)) :
    trimEnd (Pretty.text (.object members)) = Pretty.text (.object members) := by
  have htrim : ∀ cs : List Char, trimEnd (cs ++ ['\x7d']) = cs ++ ['\x7d'] := by
    intro cs
    have hbrace : isBlank '\x7d' = false := by decide
    simp [trimEnd, hbrace]
  cases members with
  | nil => exact htrim ['\x7b']
  | cons m later =>
    obtain ⟨key, value⟩ := m
    rw [Pretty.text, Pretty.value]
    exact htrim _

/-- A text with a newline behind it is printed as its bytes and one more. -/
theorem encode_shown (cs : List Char) :
    Utf8.encode (String.ofList cs ++ "\n").toList = Utf8.encode cs ++ [0x0A] := by
  rw [String.toList_append, String.toList_ofList, encode_append]
  rfl

/-- Showing a file prints a text as it is held, and a listing. -/
structure Shows (t : FileTree) (machine : Option String) (file : String) (restore : Bool)
    (listing : String) : Prop where
  json : ∃ bytes out, t.read (.ofString file) = .ok bytes ∧
    run FileTree.access machine ("show" :: file :: showFlags restore true) t =
      ({ code := 0, out := out }, t) ∧
    Utf8.encode out.toList = bytes ++ [0x0A]
  plain : run FileTree.access machine ("show" :: file :: showFlags restore false) t =
    ({ code := 0, out := String.ofList (trimEnd listing.toList) ++ "\n" }, t)

theorem runShow_backup {r : BackupRecord} (h : t.read (.ofString file) = .ok (Utf8.encode r.json))
    (json : Bool) : runShow FileTree.access ⟨file, false, json⟩ t =
      (shown (if json then r.json else (Listing.backup r).toList), t) := by
  obtain ⟨hvalue, htree⟩ := Archive.read_value BackupRecord.ofBytes h
  rw [ofBytes_backup] at hvalue
  change (showResult file _ (Archive.read FileTree.access BackupRecord.ofBytes file t).1.value,
    (Archive.read FileTree.access BackupRecord.ofBytes file t).2) = _
  rw [hvalue, htree]
  cases json <;> rfl

theorem runShow_restore {r : RestoreRecord}
    (h : t.read (.ofString file) = .ok (Utf8.encode r.json)) (json : Bool) :
    runShow FileTree.access ⟨file, true, json⟩ t =
      (shown (if json then r.json else (Listing.restore r).toList), t) := by
  obtain ⟨hvalue, htree⟩ := Archive.read_value RestoreRecord.ofBytes h
  rw [ofBytes_restore] at hvalue
  change (showResult file _ (Archive.read FileTree.access RestoreRecord.ofBytes file t).1.value,
    (Archive.read FileTree.access RestoreRecord.ofBytes file t).2) = _
  rw [hvalue, htree]
  cases json <;> rfl

/-- What the two ways of showing a file come to, if they show an object and its listing. -/
theorem shows_of_runShow {machine : Option String} {restore : Bool} {listing : String}
    {members : List (String × Tree)} (hne : file ≠ "") (hfile : looksLikeOption file = false)
    (hread : t.read (.ofString file) = .ok (Utf8.encode (Pretty.text (.object members))))
    (hrun : ∀ json, runShow FileTree.access ⟨file, restore, json⟩ t =
      (shown (if json then Pretty.text (.object members) else listing.toList), t)) :
    Shows t machine file restore listing where
  json := by
    refine ⟨_, _, hread, ?_, encode_shown _⟩
    rw [run_command FileTree.access (ofArguments_show hne hfile restore true)]
    refine (hrun true).trans ?_
    rw [if_pos rfl, shown, trimEnd_object]
  plain := by
    rw [run_command FileTree.access (ofArguments_show hne hfile restore false)]
    exact hrun false

/-! ## Restore runs -/

/-- The record that a restore run builds: one host, which failed if an error was given. -/
def restoreRecord (machine : Option String) (o : RestoreOptions) : RestoreRecord :=
  ⟨[{ hostname := resolveHost o.host machine
      phase := some (if o.error.isSome then .failed else .succeeded)
      duration := Duration.text o.seconds
      error := o.error.getD "" }]⟩

/-- A restore run writes the record that it builds. -/
theorem runRestore_eq (machine : Option String) (o : RestoreOptions) :
    runRestore FileTree.access machine o = finish FileTree.access o.output
      (restoreRecord machine o).json o.error.isSome "" := by
  unfold runRestore restoreRecord
  cases o.error <;> rfl

/-- A restore run writes its record, and its exit code says whether an error was given; or the
record cannot be written. -/
theorem runRestore_cases (machine : Option String) (o : RestoreOptions) (t : FileTree) :
    (∃ t', FileTree.access.write (.ofString o.output)
        (Utf8.encode (restoreRecord machine o).json) t = (.ok (), t') ∧
      runRestore FileTree.access machine o t = ({ code := if o.error.isSome then 3 else 0 }, t')) ∨
    ¬ t.Writable (.ofString o.output) ∧ (runRestore FileTree.access machine o t).1.code = 4 := by
  rw [runRestore_eq]
  exact finish_cases _ _ _ _ t

/-! ## Writing and showing -/

theorem runBackup_shows {machine : Option String} (machine' : Option String) {o : BackupOptions}
    (hne : o.output ≠ "") (hfile : looksLikeOption o.output = false)
    (hcode : (runBackup FileTree.access machine o t).1.code = 0 ∨
      (runBackup FileTree.access machine o t).1.code = 3) :
    ∃ outputs r, BuiltFrom t machine o outputs r ∧
      Shows (runBackup FileTree.access machine o t).2 machine' o.output false
        (Listing.backup r) := by
  rcases runBackup_cases machine o t with ⟨-, hfour⟩ | ⟨outputs, r, warning, t', hbuilt, hw, hrun⟩
  · rw [hfour] at hcode
    exact absurd hcode (by decide)
  · have hread := FileTree.read_of_write hw
    rw [hrun]
    exact ⟨outputs, r, hbuilt, shows_of_runShow hne hfile hread (runShow_backup hread)⟩

theorem runRestore_code (machine : Option String) (o : RestoreOptions) (t : FileTree) :
    (runRestore FileTree.access machine o t).1.code = 3 ↔
      o.error ≠ none ∧ t.Writable (.ofString o.output) := by
  rcases runRestore_cases machine o t with ⟨t', hw, hrun⟩ | ⟨hnot, hfour⟩
  · have hwritable : t.Writable (.ofString o.output) := ⟨_, t', hw⟩
    rw [hrun]
    cases o.error with
    | none => simp
    | some error => simp [hwritable]
  · rw [hfour]
    exact ⟨fun hcode => absurd hcode (by decide), fun hw => absurd hw.2 hnot⟩

theorem runRestore_shows {machine : Option String} (machine' : Option String) {o : RestoreOptions}
    (hne : o.output ≠ "") (hfile : looksLikeOption o.output = false)
    (hcode : (runRestore FileTree.access machine o t).1.code = 0 ∨
      (runRestore FileTree.access machine o t).1.code = 3) :
    Shows (runRestore FileTree.access machine o t).2 machine' o.output true
      (Listing.restore (restoreRecord machine o)) := by
  rcases runRestore_cases machine o t with ⟨t', hw, hrun⟩ | ⟨-, hfour⟩
  · have hread := FileTree.read_of_write hw
    rw [hrun]
    exact shows_of_runShow hne hfile hread (runShow_restore hread)
  · rw [hfour] at hcode
    exact absurd hcode (by decide)

/-- The file that a backup or restore run has written is shown as it is, and as the listing of the
record that the run has built.  A restore run exits with 3 exactly if an error was given, be it
empty, and its file could be written. -/
theorem write_then_show (t : FileTree) (machine machine' : Option String)
    (arguments : List String) :
    (∀ o, Command.ofArguments arguments = .ok (.backup o) →
      (run FileTree.access machine arguments t).1.code = 0 ∨
        (run FileTree.access machine arguments t).1.code = 3 →
      looksLikeOption o.output = false →
      ∃ outputs r, BuiltFrom t machine o outputs r ∧
        Shows (run FileTree.access machine arguments t).2 machine' o.output false
          (Listing.backup r)) ∧
    ∀ o, Command.ofArguments arguments = .ok (.restore o) →
      ((run FileTree.access machine arguments t).1.code = 3 ↔
        o.error ≠ none ∧ t.Writable (.ofString o.output)) ∧
      ((run FileTree.access machine arguments t).1.code = 0 ∨
          (run FileTree.access machine arguments t).1.code = 3 →
        looksLikeOption o.output = false →
        Shows (run FileTree.access machine arguments t).2 machine' o.output true
          (Listing.restore (restoreRecord machine o))) := by
  refine ⟨fun o h hcode hfile => ?_, fun o h => ?_⟩
  · rw [run_command FileTree.access h] at hcode ⊢
    exact runBackup_shows machine' (output_ne_empty_of_backup h) hfile hcode
  · rw [run_command FileTree.access h]
    exact ⟨runRestore_code machine o t, fun hcode hfile =>
      runRestore_shows machine' (output_ne_empty_of_restore h) hfile hcode⟩

/-- A restore run with an empty error and a backup run over its own capture, and what is shown of
them. -/
theorem write_then_show_empty_error :
    ((run FileTree.access none ["restore", "--output", "o", "--error", ""] (.empty [])).1.code = 3 ∧
      Shows (run FileTree.access none ["restore", "--output", "o", "--error", ""] (.empty [])).2
        none "o" true (Listing.restore (restoreRecord none { output := "o", error := some "" }))) ∧
    ∃ outputs r, BuiltFrom ((FileTree.empty []).put ["c"] (.file [])) none
        { output := "c", snapshots := [⟨"p", "c"⟩] } outputs r ∧
      Shows (run FileTree.access none ["backup", "--output", "c", "--snapshot", "p=c"]
        ((FileTree.empty []).put ["c"] (.file []))).2 none "c" false (Listing.backup r) := by
  have hrestore : Command.ofArguments ["restore", "--output", "o", "--error", ""] =
      .ok (.restore { output := "o", error := some "" }) := by decide +kernel
  have hbackup : Command.ofArguments ["backup", "--output", "c", "--snapshot", "p=c"] =
      .ok (.backup { output := "c", snapshots := [⟨"p", "c"⟩] }) := by decide +kernel
  have hthree : (run FileTree.access none ["restore", "--output", "o", "--error", ""]
      (.empty [])).1.code = 3 := by decide +kernel
  have hzero : (run FileTree.access none ["backup", "--output", "c", "--snapshot", "p=c"]
      ((FileTree.empty []).put ["c"] (.file []))).1.code = 0 := by decide +kernel
  exact ⟨⟨hthree, ((write_then_show (.empty []) none none _).2 _ hrestore).2 (.inr hthree)
    (by decide +kernel)⟩, (write_then_show _ none none _).1 _ hbackup (.inl hzero)
    (by decide +kernel)⟩

end BackupReport
