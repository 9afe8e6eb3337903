import BackupReport.Proofs.Run.Show

/-!
# What a run does to files

A run changes one file at most: the one that its command names for the record, and only if it exits
with 0 or 3.  Whatever stops it before, no file has been touched by then, and a write that fails
leaves more directories at most (`run_effect`).
-/

namespace BackupReport

open Files

variable {t t' : FileTree}

/-! ## The content of files -/

namespace Files

/-- The content of the file at a place, if there is a file. -/
def FileTree.content? (t : FileTree) (q : Place) : Option (List UInt8) :=
  match t.entry? q with
  | some (.file bytes) => some bytes
  | some .directory => none
  | none => none

theorem Grown.content_eq {new : Place → Prop} (h : Grown new t t') (q : Place) :
    t'.content? q = t.content? q := by
  unfold FileTree.content?
  rcases h.entry q with hsame | ⟨-, hnone, hdir⟩
  · rw [hsame]
  · rw [hnone, hdir]

/-- A file that is written is the only one whose content changes. -/
theorem content_of_write {p : Path} {bytes : List UInt8}
    (h : FileTree.access.write p bytes t = (.ok (), t')) :
    ∃ place, t'.place p = .ok place ∧ ∀ q, q ≠ place → t'.content? q = t.content? q := by
  obtain ⟨t₁, place, hgrown, hplace, -, hentry, rfl⟩ :=
    FileTree.write_put (FileTree.leadsTo_any p t) h
  refine ⟨place, FileTree.place_put hentry hplace, fun q hq => ?_⟩
  rw [← hgrown.content_eq q]
  unfold FileTree.content?
  rw [FileTree.entry?_put_of_ne hq]

end Files

/-! ## Commands -/

/-- The file that a command writes its record to, if it writes one. -/
def Command.output? : Command → Option String
  | .backup o => some o.output
  | .restore o => some o.output
  | .view _ => none

/-- What the run of a command comes to: its record is written, the run is stopped, or a record is
shown. -/
inductive Ran (t : FileTree) : Command → Outcome × FileTree → Prop
  | written {command : Command} {output : String} {bytes : List UInt8} {outcome : Outcome}
      {t' : FileTree} : command.output? = some output → outcome.code = 0 ∨ outcome.code = 3 →
      FileTree.access.write (.ofString output) bytes t = (.ok (), t') →
      Ran t command (outcome, t')
  | stopped {command : Command} {output : String} {ended : Outcome × FileTree} :
      command.output? = some output → Ends t ended → Ran t command ended
  | shown {o : ShowOptions} {outcome : Outcome} : outcome.code = 0 ∨ outcome.code = 4 →
      Ran t (.view o) (outcome, t)

/-- The exit code of a run that writes its record says whether a host has failed. -/
theorem code_of_failed (failed : Bool) :
    (if failed then 3 else 0 : UInt32) = 0 ∨ (if failed then 3 else 0 : UInt32) = 3 := by
  cases failed
  · exact .inl rfl
  · exact .inr rfl

theorem showResult_code {α : Type} (file : String) (text : α → List Char)
    (result : Except Error α) :
    (showResult file text result).code = 0 ∨ (showResult file text result).code = 4 := by
  cases result with
  | ok r => exact .inl rfl
  | error e => exact .inr rfl

theorem ran_show (o : ShowOptions) (t : FileTree) :
    Ran t (.view o) (runShow FileTree.access o t) := by
  unfold runShow
  split
  · rw [bind_run, Archive.readRestore, Archive.read_tree]
    exact .shown (showResult_code _ _ _)
  · rw [bind_run, Archive.readBackup, Archive.read_tree]
    exact .shown (showResult_code _ _ _)

theorem Command.run_ran (machine : Option String) (command : Command) (t : FileTree) :
    Ran t command (command.run FileTree.access machine t) := by
  cases command with
  | backup o =>
    change Ran t (.backup o) (runBackup FileTree.access machine o t)
    rcases runBackup_ends machine o t with ⟨-, hends⟩ | ⟨outputs, r, warning, t', -, hw, hrun⟩
    · exact .stopped rfl hends
    · rw [hrun]
      exact .written rfl (code_of_failed _) hw
  | restore o =>
    change Ran t (.restore o) (runRestore FileTree.access machine o t)
    rw [runRestore_eq]
    rcases finish_ends o.output (restoreRecord machine o).json o.error.isSome "" t with
      ⟨t', hw, hrun⟩ | ⟨-, hends⟩
    · rw [hrun]
      exact .written rfl (code_of_failed _) hw
    · exact .stopped rfl hends
  | view o => exact ran_show o t

/-! ## The program -/

/-- The arguments ask for help or for the version, by their first one; no arguments ask for help. -/
def AsksForText : List String → Prop
  | [] => True
  | first :: _ => first = "--help" ∨ first = "-h" ∨ first = "--version" ∨ first = "-v"

/-- What a run comes to, by its exit code and by what becomes of the files. -/
structure RunEffect (t : FileTree) (arguments : List String) (outcome : Outcome)
    (t' : FileTree) : Prop where
  codes : outcome.code = 0 ∨ outcome.code = 2 ∨ outcome.code = 3 ∨ outcome.code = 4
  refused : outcome.code = 2 ↔
    ¬ AsksForText arguments ∧ ∃ e, Command.ofArguments arguments = .error e
  changed : ∀ q, t'.content? q ≠ t.content? q → ∃ command output,
    Command.ofArguments arguments = .ok command ∧ command.output? = some output ∧
      (outcome.code = 0 ∨ outcome.code = 3) ∧ t'.place (.ofString output) = .ok q
  kept : outcome.code = 2 ∨ AsksForText arguments ∨
    (∃ o, Command.ofArguments arguments = .ok (.view o)) → t' = t
  stopped : outcome.code = 4 → ∀ q, t'.content? q = t.content? q

theorem not_asksForText {command : Command} {arguments : List String}
    (h : Command.ofArguments arguments = .ok command) : ¬ AsksForText arguments := by
  cases commandLine_of_ofArguments h <;> simp [AsksForText]

section

variable {command : Command} {arguments : List String} {outcome : Outcome}

/-- A command that was understood has its effect if its run changes no file but the one it may. -/
theorem runEffect_of_command (h : Command.ofArguments arguments = .ok command)
    (hcode : outcome.code = 0 ∨ outcome.code = 3 ∨ outcome.code = 4)
    (hchanged : ∀ q, t'.content? q ≠ t.content? q → ∃ output, command.output? = some output ∧
      (outcome.code = 0 ∨ outcome.code = 3) ∧ t'.place (.ofString output) = .ok q)
    (hkept : (∃ o, command = .view o) → t' = t) : RunEffect t arguments outcome t' := by
  have hnot : outcome.code ≠ 2 := by
    rcases hcode with hcode | hcode | hcode <;>
      · rw [hcode]
        decide
  have haccepted : ¬ ∃ e, Command.ofArguments arguments = .error e := by
    rintro ⟨e, he⟩
    rw [h] at he
    cases he
  refine ⟨?_, iff_of_false hnot fun hrefused => haccepted hrefused.2, fun q hq => ?_,
    fun hkeeps => ?_, fun hfour q => ?_⟩
  · rcases hcode with hcode | hcode | hcode
    · exact .inl hcode
    · exact .inr (.inr (.inl hcode))
    · exact .inr (.inr (.inr hcode))
  · obtain ⟨output, houtput⟩ := hchanged q hq
    exact ⟨command, output, h, houtput⟩
  · rcases hkeeps with htwo | hasks | ⟨o, ho⟩
    · exact absurd htwo hnot
    · exact absurd hasks (not_asksForText h)
    · rw [h] at ho
      cases ho
      exact hkept ⟨o, rfl⟩
  · -- an exit code of 4 is that of no run that changes a file
    by_contra hne
    obtain ⟨-, -, hwritten | hwritten, -⟩ := hchanged q hne <;>
      · rw [hfour] at hwritten
        cases hwritten

theorem runEffect_of_ran (h : Command.ofArguments arguments = .ok command)
    {ended : Outcome × FileTree} (hran : Ran t command ended) :
    RunEffect t arguments ended.1 ended.2 := by
  cases hran with
  | @written command output bytes outcome t' houtput hcode hw =>
    obtain ⟨place, hplace, hothers⟩ := content_of_write hw
    refine runEffect_of_command h (hcode.imp_right .inl) (fun q hq => ?_) ?_
    · refine ⟨output, houtput, hcode, ?_⟩
      by_cases hne : q = place
      · rw [hne]
        exact hplace
      · exact absurd (hothers q hne) hq
    · rintro ⟨o, rfl⟩
      cases houtput
  | stopped houtput hends =>
    refine runEffect_of_command h (.inr (.inr hends.code))
      (fun q hq => absurd (hends.grown.content_eq q) hq) ?_
    rintro ⟨o, rfl⟩
    cases houtput
  | shown hcode =>
    exact runEffect_of_command h (hcode.imp_right .inr) (fun q hq => absurd rfl hq) fun _ => rfl

end

/-- Whatever its arguments are, and whatever the files, a run exits with 0, 2, 3 or 4.  It exits
with 2 exactly if its arguments are refused.  It changes or creates a file only if it is that of an
accepted command that writes a record, which then exits with 0 or 3, and only the file that the
command names; a run that exits with 4 changes and creates none, and one that is refused, or asks
for a text, or shows a record, leaves the tree as it is. -/
theorem run_effect (t : FileTree) (machine : Option String) (arguments : List String) :
    RunEffect t arguments (run FileTree.access machine arguments t).1
      (run FileTree.access machine arguments t).2 := by
  have htext : ∀ {outcome : Outcome}, AsksForText arguments → outcome.code = 0 →
      RunEffect t arguments outcome t := fun {outcome} hasks hcode => by
    refine ⟨.inl hcode, iff_of_false ?_ fun h => h.1 hasks, fun q hq => absurd rfl hq,
      fun _ => rfl, fun _ _ => rfl⟩
    rw [hcode]
    decide
  cases arguments with
  | nil => exact htext trivial rfl
  | cons first later =>
    by_cases hhelp : first = "--help" ∨ first = "-h"
    · simp only [run, if_pos hhelp]
      exact htext (hhelp.imp_right .inl) rfl
    · by_cases hversion : first = "--version" ∨ first = "-v"
      · simp only [run, if_neg hhelp, if_pos hversion]
        exact htext (.inr (.inr hversion)) rfl
      · cases h : Command.ofArguments (first :: later) with
        | ok command =>
          rw [run_command FileTree.access h]
          exact runEffect_of_ran h (command.run_ran machine t)
        | error e =>
          simp only [run, if_neg hhelp, if_neg hversion, h]
          have hasks : ¬ AsksForText (first :: later) := by
            rintro (hfirst | hfirst | hfirst)
            · exact hhelp (.inl hfirst)
            · exact hhelp (.inr hfirst)
            · exact hversion hfirst
          exact ⟨.inr (.inl rfl), iff_of_true rfl ⟨hasks, e, h⟩, fun q hq => absurd rfl hq,
            fun _ => rfl, fun _ _ => rfl⟩

end BackupReport
