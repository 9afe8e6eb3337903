import BackupReport.Command.Run
import BackupReport.Proofs.Files.Writing

/-!
# Command lines that are understood

A command line that is understood is the name of a command and its options (`CommandLine`), and it
is run as that command (`run_command`).  The file that a command writes always has a name, and one
that does not look like an option can be shown (`ofArguments_show`).
-/

namespace BackupReport

open Files

variable {arguments : List String}

/-! ## Commands -/

/-- The command that some arguments ask for. -/
inductive CommandLine : List String → Command → Prop
  | backup {later : List String} {o : BackupOptions} : BackupOptions.ofArguments later = .ok o →
      CommandLine ("backup" :: later) (.backup o)
  | restore {later : List String} {o : RestoreOptions} : RestoreOptions.ofArguments later = .ok o →
      CommandLine ("restore" :: later) (.restore o)
  | view {later : List String} {o : ShowOptions} : ShowOptions.ofArguments later = .ok o →
      CommandLine ("show" :: later) (.view o)

theorem commandLine_of_ofArguments {command : Command}
    (h : Command.ofArguments arguments = .ok command) : CommandLine arguments command := by
  cases arguments with
  | nil => cases h
  | cons name later =>
    by_cases hbackup : name = "backup"
    · subst hbackup
      obtain ⟨o, ho, rfl⟩ := map_eq_ok h
      exact .backup ho
    · by_cases hrestore : name = "restore"
      · subst hrestore
        obtain ⟨o, ho, rfl⟩ := map_eq_ok h
        exact .restore ho
      · by_cases hshow : name = "show"
        · subst hshow
          obtain ⟨o, ho, rfl⟩ := map_eq_ok h
          exact .view ho
        · simp only [Command.ofArguments, if_neg hbackup, if_neg hrestore, if_neg hshow] at h
          cases h

/-- A command line that is understood is run as the command that it asks for. -/
theorem run_command {m : Type → Type} [Monad m] (files : Access m) {machine : Option String}
    {command : Command} (h : Command.ofArguments arguments = .ok command) :
    run files machine arguments = command.run files machine := by
  cases arguments with
  | nil => cases h
  | cons name later =>
    have hname : ¬ (name = "--help" ∨ name = "-h") ∧ ¬ (name = "--version" ∨ name = "-v") := by
      cases commandLine_of_ofArguments h <;> decide
    simp only [run, if_neg hname.1, if_neg hname.2, h]

/-! ## Files -/

theorem output_ne_empty_of_backup {o : BackupOptions}
    (h : Command.ofArguments arguments = .ok (.backup o)) : o.output ≠ "" := by
  cases commandLine_of_ofArguments h with
  | backup ho =>
    obtain ⟨read, -, ho⟩ := bind_eq_ok ho
    split at ho
    · cases ho
    · rename_i hne
      split at ho
      · cases ho
      · cases ho
        exact hne

theorem output_ne_empty_of_restore {o : RestoreOptions}
    (h : Command.ofArguments arguments = .ok (.restore o)) : o.output ≠ "" := by
  cases commandLine_of_ofArguments h with
  | restore ho =>
    obtain ⟨read, -, ho⟩ := bind_eq_ok ho
    split at ho
    · cases ho
    · rename_i hne
      cases ho
      exact hne

/-- The flags that ask for a restore record and for JSON. -/
def showFlags (restore json : Bool) : List String :=
  (if restore then ["--restore"] else []) ++ if json then ["--json"] else []

/-- A file that does not look like an option may be shown. -/
theorem ofArguments_show {file : String} (hne : file ≠ "") (hfile : looksLikeOption file = false)
    (restore json : Bool) :
    Command.ofArguments ("show" :: file :: showFlags restore json) =
      .ok (.view ⟨file, restore, json⟩) := by
  have hrestore : file ≠ "--restore" := by
    rintro rfl
    cases hfile
  have hjson : file ≠ "--json" := by
    rintro rfl
    cases hfile
  have hadd : ShowOptions.add {} file = .ok ⟨file, false, false⟩ := by
    simp [ShowOptions.add, hrestore, hjson, hfile]
  have hall : ShowOptions.ofArguments (file :: showFlags restore json) =
      .ok ⟨file, restore, json⟩ := by
    unfold ShowOptions.ofArguments ShowOptions.addAll
    rw [hadd]
    cases restore <;> cases json <;>
      simp [showFlags, ShowOptions.addAll, ShowOptions.add, bind, Except.bind, hne]
  change Command.view <$> ShowOptions.ofArguments (file :: showFlags restore json) = _
  rw [hall]
  rfl

end BackupReport
