import BackupReport.Proofs.Arguments.Options

/-!
# The file that is shown

The arguments behind the command that shows a record are flags and one file, in any order
(`TakesOneFile`).  An argument is taken as the file as long as the file is still empty, so that
empty arguments are passed over in front of the file and refused behind it (`Names`); without empty
arguments the order does not matter.
-/

namespace BackupReport

namespace ShowOptions

/-- The arguments that are no flags, in their order. -/
def others (arguments : List String) : List String :=
  arguments.filter fun a => a ≠ "--restore" ∧ a ≠ "--json"

/-- Some options with the flags that are among the arguments. -/
def flagged (o : ShowOptions) (arguments : List String) : ShowOptions :=
  { o with
    restore := o.restore || arguments.contains "--restore"
    json := o.json || arguments.contains "--json" }

/-- A file that can be shown. -/
structure Viewable (file : String) : Prop where
  nonempty : file ≠ ""
  plain : looksLikeOption file = false

/-- The arguments name a file: of those that are no flags it is the last, and the others are
empty. -/
structure Names (arguments : List String) (file : String) : Prop where
  last : ∃ empty, others arguments = empty ++ [file] ∧ ∀ a ∈ empty, a = ""
  viewable : Viewable file

variable {o o' : ShowOptions} {arguments arguments' : List String} {argument file : String}

/-! ## One argument after the other -/

theorem not_flag_of_plain (h : looksLikeOption argument = false) :
    argument ≠ "--restore" ∧ argument ≠ "--json" := by
  constructor <;>
  · rintro rfl
    cases h

/-- How one more argument changes the options. -/
inductive Adds (o : ShowOptions) : String → ShowOptions → Prop
  | restore : Adds o "--restore" { o with restore := true }
  | json : Adds o "--json" { o with json := true }
  | file {argument : String} : looksLikeOption argument = false → o.file = "" →
      Adds o argument { o with file := argument }

theorem add_iff : o.add argument = .ok o' ↔ Adds o argument o' := by
  constructor
  · intro h
    unfold add at h
    split_ifs at h with hrestore hjson hoption hfile
    · cases h
      exact hrestore ▸ .restore
    · cases h
      exact hjson ▸ .json
    · cases h
      exact .file (Bool.eq_false_iff.2 hoption) hfile
  · intro h
    cases h with
    | restore => rfl
    | json => rfl
    | file hplain hfile =>
      obtain ⟨hrestore, hjson⟩ := not_flag_of_plain hplain
      simp only [add, if_neg hrestore, if_neg hjson, hplain, Bool.false_eq_true, if_false,
        if_pos hfile]

theorem addAll_cons_iff :
    addAll (argument :: arguments) o = .ok o' ↔
      ∃ o₁, Adds o argument o₁ ∧ addAll arguments o₁ = .ok o' := by
  simp only [← add_iff]
  constructor
  · intro h
    exact bind_eq_ok h
  · rintro ⟨o₁, hadd, h⟩
    rw [addAll, hadd]
    exact h

/-- What is taken as the file of the arguments that are no flags, if one is held already: an
argument takes the place of an empty one. -/
inductive Takes : String → List String → String → Prop
  | nil (file : String) : Takes file [] file
  | cons {held argument file : String} {later : List String} : held = "" →
      looksLikeOption argument = false → Takes argument later file →
        Takes held (argument :: later) file

theorem others_cons (h : argument ≠ "--restore" ∧ argument ≠ "--json") (arguments : List String) :
    others (argument :: arguments) = argument :: others arguments :=
  List.filter_cons_of_pos (decide_eq_true h)

theorem flagged_cons (h : argument ≠ "--restore" ∧ argument ≠ "--json") (o : ShowOptions)
    (arguments : List String) : o.flagged (argument :: arguments) = o.flagged arguments := by
  simp [flagged, h.1.symm, h.2.symm]

/-- What some arguments make of the options: the flags are set that are among them, and the file is
taken from the others. -/
theorem addAll_iff : addAll arguments o = .ok o' ↔
    ∃ file, Takes o.file (others arguments) file ∧ o' = { o.flagged arguments with file } := by
  induction arguments generalizing o with
  | nil =>
    constructor
    · intro h
      obtain rfl : o = o' := Except.ok.inj h
      exact ⟨o.file, .nil _, by simp [flagged]⟩
    · rintro ⟨file, htakes, rfl⟩
      cases htakes
      simp [addAll, flagged]
  | cons argument arguments ih =>
    rw [addAll_cons_iff]
    constructor
    · rintro ⟨o₁, hadd, h⟩
      obtain ⟨file, htakes, rfl⟩ := ih.1 h
      cases hadd with
      | restore => exact ⟨file, htakes, by simp [flagged]⟩
      | json => exact ⟨file, htakes, by simp [flagged]⟩
      | file hplain hfile =>
        have hflag := not_flag_of_plain hplain
        rw [others_cons hflag, flagged_cons hflag]
        exact ⟨file, .cons hfile hplain htakes, rfl⟩
    · rintro ⟨file, htakes, rfl⟩
      by_cases hrestore : argument = "--restore"
      · subst hrestore
        exact ⟨_, .restore, ih.2 ⟨file, htakes, by simp [flagged]⟩⟩
      by_cases hjson : argument = "--json"
      · subst hjson
        exact ⟨_, .json, ih.2 ⟨file, htakes, by simp [flagged]⟩⟩
      have hflag := And.intro hrestore hjson
      rw [others_cons hflag] at htakes
      cases htakes with
      | cons hfile hplain htakes =>
        exact ⟨_, .file hplain hfile, ih.2 ⟨file, htakes, by rw [flagged_cons hflag]; rfl⟩⟩

/-! ## The file -/

theorem Takes.eq_nil {held : String} {later : List String} (h : Takes held later file)
    (hheld : held ≠ "") : later = [] ∧ file = held := by
  cases h with
  | nil => exact ⟨rfl, rfl⟩
  | cons hempty => exact absurd hempty hheld

/-- A file is taken if it is the last, and all before it are empty. -/
theorem takes_iff {later : List String} : Takes "" later file ∧ file ≠ "" ↔
    (∃ empty, later = empty ++ [file] ∧ ∀ a ∈ empty, a = "") ∧ Viewable file := by
  constructor
  · rintro ⟨htakes, hfile⟩
    induction later with
    | nil =>
      cases htakes
      exact absurd rfl hfile
    | cons argument later ih =>
      cases htakes with
      | cons _ hplain htakes =>
        by_cases hempty : argument = ""
        · subst hempty
          obtain ⟨⟨empty, rfl, hall⟩, hviewable⟩ := ih htakes
          exact ⟨⟨"" :: empty, rfl, List.forall_mem_cons.2 ⟨rfl, hall⟩⟩, hviewable⟩
        · -- an argument that is not empty stays the file, so that no other may follow
          obtain ⟨rfl, rfl⟩ := htakes.eq_nil hempty
          exact ⟨⟨[], rfl, List.forall_mem_nil _⟩, hfile, hplain⟩
  · rintro ⟨⟨empty, rfl, hall⟩, hfile, hplain⟩
    refine ⟨?_, hfile⟩
    induction empty with
    | nil => exact .cons rfl hplain (.nil file)
    | cons argument empty ih =>
      obtain ⟨rfl, hall'⟩ := List.forall_mem_cons.1 hall
      exact .cons rfl rfl (ih hall')

end ShowOptions

open ShowOptions

variable {arguments arguments' : List String} {file : String}

/-- The command is understood if its arguments name a file, and shows that file. -/
theorem ofArguments_show_iff (arguments : List String) (c : Command) :
    Command.ofArguments ("show" :: arguments) = .ok c ↔ ∃ file, Names arguments file ∧
      c = .view ⟨file, arguments.contains "--restore", arguments.contains "--json"⟩ := by
  have hcommand : Command.ofArguments ("show" :: arguments) = .ok c ↔
      ∃ o, addAll arguments {} = .ok o ∧ o.file ≠ "" ∧ c = .view o := by
    constructor
    · intro h
      obtain ⟨o, ho, rfl⟩ := map_eq_ok h
      obtain ⟨o', hadd, ho⟩ := bind_eq_ok ho
      split_ifs at ho with hfile
      cases ho
      exact ⟨o, hadd, hfile, rfl⟩
    · rintro ⟨o, hadd, hfile, rfl⟩
      have ho : ShowOptions.ofArguments arguments = .ok o := by
        rw [ShowOptions.ofArguments, hadd]
        exact if_neg hfile
      exact congrArg (Command.view <$> ·) ho
  rw [hcommand]
  constructor
  · rintro ⟨o, hadd, hfile, rfl⟩
    obtain ⟨file, htakes, rfl⟩ := addAll_iff.1 hadd
    obtain ⟨hlast, hviewable⟩ := takes_iff.1 ⟨htakes, hfile⟩
    exact ⟨file, ⟨hlast, hviewable⟩, by simp [flagged]⟩
  · rintro ⟨file, ⟨hlast, hviewable⟩, rfl⟩
    obtain ⟨htakes, hfile⟩ := takes_iff.2 ⟨hlast, hviewable⟩
    exact ⟨_, addAll_iff.2 ⟨file, htakes, rfl⟩, hfile, by simp [flagged]⟩

/-- The command takes one file: it is understood if one of its arguments is no flag, and that can be
shown, and in any other order the arguments say the same. -/
structure TakesOneFile (arguments : List String) : Prop where
  iff : ∀ c, Command.ofArguments ("show" :: arguments) = .ok c ↔
    ∃ file, others arguments = [file] ∧ Viewable file ∧
      c = .view ⟨file, arguments.contains "--restore", arguments.contains "--json"⟩
  perm : ∀ arguments', arguments.Perm arguments' →
    (Command.ofArguments ("show" :: arguments)).toOption =
      (Command.ofArguments ("show" :: arguments')).toOption

theorem names_iff (h : "" ∉ arguments) :
    Names arguments file ↔ others arguments = [file] ∧ Viewable file := by
  constructor
  · rintro ⟨⟨empty, hothers, hall⟩, hviewable⟩
    have hempty : empty = [] := by
      refine List.eq_nil_iff_forall_not_mem.2 fun a ha => h ?_
      have hmem : a ∈ others arguments := hothers ▸ List.mem_append_left _ ha
      exact hall a ha ▸ List.mem_of_mem_filter hmem
    rw [hempty] at hothers
    exact ⟨hothers, hviewable⟩
  · rintro ⟨hothers, hviewable⟩
    exact ⟨⟨[], hothers, List.forall_mem_nil _⟩, hviewable⟩

theorem takesOneFile (h : "" ∉ arguments) : TakesOneFile arguments := by
  have hiff : ∀ {arguments : List String}, "" ∉ arguments → ∀ c,
      Command.ofArguments ("show" :: arguments) = .ok c ↔
        ∃ file, others arguments = [file] ∧ Viewable file ∧
          c = .view ⟨file, arguments.contains "--restore", arguments.contains "--json"⟩ := by
    intro arguments h c
    simp only [ofArguments_show_iff, names_iff h, and_assoc]
  refine ⟨hiff h, fun arguments' hperm => toOption_congr fun c => ?_⟩
  rw [hiff h, hiff (hperm.mem_iff.not.1 h)]
  have hothers : ∀ file, others arguments = [file] ↔ others arguments' = [file] := by
    intro file
    have hothers : (others arguments).Perm (others arguments') := hperm.filter _
    rw [← List.perm_singleton, ← List.perm_singleton]
    exact ⟨hothers.symm.trans, hothers.trans⟩
  simp only [hothers, hperm.contains_eq]

/-- The arguments of the command are understood if they name a file; if none of them is empty, it
takes one file. -/
theorem shown_file_iff (arguments : List String) :
    (∀ c, Command.ofArguments ("show" :: arguments) = .ok c ↔ ∃ file, Names arguments file ∧
      c = .view ⟨file, arguments.contains "--restore", arguments.contains "--json"⟩) ∧
    ("" ∉ arguments → TakesOneFile arguments) :=
  ⟨ofArguments_show_iff arguments, takesOneFile⟩

theorem shown_file_iff_flags : "" ∉ ["--json", "out.json", "--restore"] ∧
    TakesOneFile ["--json", "out.json", "--restore"] :=
  ⟨by decide, (shown_file_iff _).2 (by decide)⟩

/-- Behind an empty argument a second one is taken as the file. -/
theorem shown_empty_argument : ¬ ∀ arguments, TakesOneFile arguments := by
  intro h
  have hview : Command.ofArguments ["show", "", "out.json"] =
      .ok (.view ⟨"out.json", false, false⟩) := by decide
  obtain ⟨file, hothers, -⟩ := ((h _).iff _).1 hview
  cases hothers

end BackupReport
