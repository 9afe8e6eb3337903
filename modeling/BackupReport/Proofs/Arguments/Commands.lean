import BackupReport.Proofs.Arguments.Options

/-!
# The options of the commands that write records

Both commands take their arguments as options, in pairs; an option that is repeated counts as given
last, and the snapshots add up (`understands_options`).  Each option changes one field of the record
(`Sets`), so that what a row of options says (`Describes`) is known field by field.
-/

namespace BackupReport

open Given

/-! ## Single values -/

/-- The seconds that a value denotes; without a value there are none. -/
def SecondsOf : Option String → UInt64 → Prop
  | none, n => n = 0
  | some value, n => Denotes value n

theorem SecondsOf.unique {value : Option String} {n n' : UInt64} (h : SecondsOf value n)
    (h' : SecondsOf value n') : n = n' := by
  cases value with
  | none => exact h.trans h'.symm
  | some value => exact Denotes.unique h h'

theorem proper_of_forall₂ {values : List String} {captures : List Capture}
    (h : List.Forall₂ PartsInto values captures) : ∀ capture ∈ captures, capture.Proper := by
  induction h with
  | nil => exact List.forall_mem_nil _
  | cons hcapture _ ih => exact List.forall_mem_cons.2 ⟨hcapture.proper, ih⟩

theorem getD_ne_empty {value : Option String} :
    value.getD "" ≠ "" ↔ ∃ output, value = some output ∧ output ≠ "" := by
  cases value <;> simp

namespace Given

/-- Some values, all for one flag. -/
def row (flag : String) (values : List String) : List Given := values.map (⟨flag, ·⟩)

@[simp]
theorem valuesOf_row (flag flag' : String) (values : List String) :
    valuesOf flag (row flag' values) = if flag' = flag then values else [] := by
  induction values with
  | nil => simp [row]
  | cons value values ih =>
    rw [row, List.map_cons, valuesOf_cons, ← row, ih]
    split <;> rfl

theorem mem_row {flag : String} {values : List String} {g : Given} :
    g ∈ row flag values ↔ g.flag = flag ∧ g.value ∈ values := by
  rw [row, List.mem_map]
  constructor
  · rintro ⟨value, hvalue, rfl⟩
    exact ⟨rfl, hvalue⟩
  · rintro ⟨rfl, hvalue⟩
    exact ⟨g.value, hvalue, rfl⟩

theorem getLast?_toList (value : Option String) : value.toList.getLast? = value := by
  cases value <;> rfl

end Given

/-! ## Backups -/

namespace BackupOptions

/-- The flags of the command that writes a backup record. -/
def names : List String :=
  ["--output", "--host", "--snapshot", "--duration", "--forget", "--check", "--stats"]

/-- What one option changes. -/
inductive Sets : BackupOptions → Given → BackupOptions → Prop
  | output (o : BackupOptions) (value : String) :
      Sets o ⟨"--output", value⟩ { o with output := value }
  | host (o : BackupOptions) (value : String) :
      Sets o ⟨"--host", value⟩ { o with host := some value }
  | snapshot (o : BackupOptions) {value : String} {capture : Capture} : PartsInto value capture →
      Sets o ⟨"--snapshot", value⟩ { o with snapshots := o.snapshots ++ [capture] }
  | duration (o : BackupOptions) {value : String} {n : UInt64} : Denotes value n →
      Sets o ⟨"--duration", value⟩ { o with seconds := n }
  | forget (o : BackupOptions) (value : String) :
      Sets o ⟨"--forget", value⟩ { o with forget := some value }
  | check (o : BackupOptions) (value : String) :
      Sets o ⟨"--check", value⟩ { o with check := some value }
  | stats (o : BackupOptions) (value : String) :
      Sets o ⟨"--stats", value⟩ { o with stats := some value }

/-- The options that the command accepts. -/
structure Allowed (given : List Given) : Prop where
  readable : ∀ g ∈ given, g.Readable names
  output : ∃ output, lastOf "--output" given = some output ∧ output ≠ ""
  snapshot : ∃ g ∈ given, g.flag = "--snapshot"

/-- What some options say. -/
structure Describes (given : List Given) (o : BackupOptions) : Prop where
  output : o.output = (lastOf "--output" given).getD ""
  host : o.host = lastOf "--host" given
  snapshots : List.Forall₂ PartsInto (valuesOf "--snapshot" given) o.snapshots
  seconds : SecondsOf (lastOf "--duration" given) o.seconds
  forget : o.forget = lastOf "--forget" given
  check : o.check = lastOf "--check" given
  stats : o.stats = lastOf "--stats" given

/-- A record that can be asked for. -/
structure Complete (o : BackupOptions) : Prop where
  output : o.output ≠ ""
  snapshots : o.snapshots ≠ []
  proper : ∀ capture ∈ o.snapshots, capture.Proper

/-- The options that ask for a record. -/
def print (o : BackupOptions) : List Given :=
  ⟨"--output", o.output⟩ :: (row "--host" o.host.toList ++
    row "--snapshot" (o.snapshots.map Capture.print) ++
    [⟨"--duration", printSeconds o.seconds⟩] ++ row "--forget" o.forget.toList ++
    row "--check" o.check.toList ++ row "--stats" o.stats.toList)

variable {o o' : BackupOptions} {given : List Given} {g : Given}

theorem sets_iff : flags.apply o g = .ok o' ↔ Sets o g o' := by
  obtain ⟨flag, value⟩ := g
  constructor
  · intro h
    unfold Flags.apply at h
    split at h
    · rename_i set hset
      -- one case for each flag, in the order of the table
      dsimp only [flags] at hset h
      split_ifs at hset <;> subst flag <;> cases hset
      case pos => cases h; exact .output o value
      case pos => cases h; exact .host o value
      case pos =>
        obtain ⟨capture, hcapture, h⟩ := bind_eq_ok h
        cases h
        exact .snapshot o (readCapture_iff.1 hcapture)
      case pos =>
        obtain ⟨n, hn, h⟩ := bind_eq_ok h
        cases h
        exact .duration o (readSeconds_iff.1 hn)
      case pos => cases h; exact .forget o value
      case pos => cases h; exact .check o value
      case pos => cases h; exact .stats o value
    · cases h
  · intro h
    cases h with
    | output | host | forget | check | stats => rfl
    | snapshot hcapture =>
      change (readCapture value >>= _) = _
      rw [readCapture_iff.2 hcapture]
      rfl
    | duration hn =>
      change (readSeconds value >>= _) = _
      rw [readSeconds_iff.2 hn]
      rfl

theorem readable_iff (g : Given) (o : BackupOptions) :
    (∃ o', Sets o g o') ↔ g.Readable names := by
  constructor
  · rintro ⟨o', h⟩
    cases h with
    | output | host | forget | check | stats => constructor <;> simp [names]
    | snapshot hcapture => exact ⟨by simp [names], fun _ => ⟨_, hcapture⟩, by simp⟩
    | duration hn => exact ⟨by simp [names], by simp, fun _ => ⟨_, hn⟩⟩
  · obtain ⟨flag, value⟩ := g
    rintro ⟨hknown, hsnapshot, hduration⟩
    simp only [names, List.mem_cons, List.not_mem_nil, or_false] at hknown
    rcases hknown with rfl | rfl | rfl | rfl | rfl | rfl | rfl
    · exact ⟨_, .output o value⟩
    · exact ⟨_, .host o value⟩
    · obtain ⟨capture, hcapture⟩ := hsnapshot rfl
      exact ⟨_, .snapshot o hcapture⟩
    · obtain ⟨n, hn⟩ := hduration rfl
      exact ⟨_, .duration o hn⟩
    · exact ⟨_, .forget o value⟩
    · exact ⟨_, .check o value⟩
    · exact ⟨_, .stats o value⟩

/-- One more option changes what was said by its own field and leaves the others. -/
theorem Describes.step (h : Describes given o) (hset : Sets o g o') :
    Describes (given ++ [g]) o' := by
  obtain ⟨houtput, hhost, hsnapshots, hseconds, hforget, hcheck, hstats⟩ := h
  cases hset with
  | output | host | forget | check | stats => constructor <;> simp [*]
  | snapshot hcapture =>
    have hmore := List.rel_append hsnapshots (.cons hcapture .nil)
    constructor <;> simp [*]
  | duration hn => constructor <;> simp [SecondsOf, *]

theorem Describes.unique (h : Describes given o) (h' : Describes given o') : o = o' := by
  have hsnapshots : o.snapshots = o'.snapshots :=
    have hunique : Relator.RightUnique PartsInto := fun _ _ _ h h' => h.unique h'
    hunique.forall₂ h.snapshots h'.snapshots
  have hseconds : o.seconds = o'.seconds := h.seconds.unique h'.seconds
  cases o
  cases o'
  rw [mk.injEq]
  exact ⟨h.output.trans h'.output.symm, h.host.trans h'.host.symm, hsnapshots, hseconds,
    h.forget.trans h'.forget.symm, h.check.trans h'.check.symm, h.stats.trans h'.stats.symm⟩

/-- What some options say depends on the values of each flag only. -/
theorem Describes.congr {given' : List Given}
    (hvalues : ∀ flag, valuesOf flag given = valuesOf flag given') (h : Describes given o) :
    Describes given' o := by
  have hlast := lastOf_congr hvalues
  exact ⟨hlast _ ▸ h.output, hlast _ ▸ h.host, hvalues _ ▸ h.snapshots, hlast _ ▸ h.seconds,
    hlast _ ▸ h.forget, hlast _ ▸ h.check, hlast _ ▸ h.stats⟩

theorem steps : Steps flags {} (Readable names) Describes where
  readable g o := by simp only [sets_iff, readable_iff]
  start := ⟨rfl, rfl, .nil, rfl, rfl, rfl, rfl⟩
  step h hset := h.step (sets_iff.1 hset)
  unique h h' := h.unique h'

theorem ofArguments_iff (tokens : List String) (c : Command) :
    Command.ofArguments ("backup" :: tokens) = .ok c ↔
      ∃ o, c = .backup o ∧ readOptions flags tokens {} = .ok o ∧
        o.output ≠ "" ∧ o.snapshots ≠ [] := by
  constructor
  · intro h
    obtain ⟨o, ho, rfl⟩ := map_eq_ok h
    obtain ⟨read, hread, ho⟩ := bind_eq_ok ho
    split_ifs at ho with houtput hsnapshots
    cases ho
    exact ⟨o, rfl, hread, houtput, mt List.isEmpty_iff.2 hsnapshots⟩
  · rintro ⟨o, rfl, hread, houtput, hsnapshots⟩
    change Command.backup <$> (readOptions flags tokens {} >>= _) = _
    rw [hread]
    change Command.backup <$> (if o.output = "" then _ else _) = _
    rw [if_neg houtput, if_neg (mt List.isEmpty_iff.1 hsnapshots)]
    rfl

theorem Describes.allowed_iff (hreadable : ∀ g ∈ given, g.Readable names)
    (h : Describes given o) : Allowed given ↔ o.output ≠ "" ∧ o.snapshots ≠ [] := by
  have hlength := h.snapshots.length_eq
  rw [h.output, getD_ne_empty]
  constructor
  · rintro ⟨-, houtput, ⟨flag, value⟩, hg, rfl⟩
    have hpos := List.length_pos_of_mem (mem_valuesOf.2 hg)
    exact ⟨houtput, List.ne_nil_of_length_pos (hlength ▸ hpos)⟩
  · rintro ⟨houtput, hsnapshots⟩
    have hpos := List.length_pos_of_ne_nil hsnapshots
    obtain ⟨value, hvalue⟩ := List.exists_mem_of_length_pos (hlength ▸ hpos)
    exact ⟨hreadable, houtput, _, mem_valuesOf.1 hvalue, rfl⟩

theorem readable_print (h : o.Complete) : ∀ g ∈ o.print, g.Readable names := by
  intro g hg
  simp only [print, List.mem_cons, List.mem_append, mem_row, List.not_mem_nil, or_false] at hg
  rcases hg with rfl | ((((hg | hg) | rfl) | hg) | hg) | hg
  · constructor <;> simp [names]
  · constructor <;> simp [names, hg.1]
  · obtain ⟨capture, hcapture, hvalue⟩ := List.mem_map.1 hg.2
    refine ⟨by simp [names, hg.1], fun _ => ⟨capture, ?_⟩, by simp [hg.1]⟩
    rw [← hvalue]
    exact partsInto_print (h.proper capture hcapture)
  · exact ⟨by simp [names], by simp, fun _ => ⟨_, denotes_print _⟩⟩
  · constructor <;> simp [names, hg.1]
  · constructor <;> simp [names, hg.1]
  · constructor <;> simp [names, hg.1]

theorem describes_print (h : ∀ capture ∈ o.snapshots, capture.Proper) : Describes o.print o := by
  have hsnapshots : List.Forall₂ PartsInto (o.snapshots.map Capture.print) o.snapshots :=
    List.forall₂_map_left_iff.2 (List.forall₂_same.2 fun capture hcapture =>
      partsInto_print (h capture hcapture))
  have hseconds : SecondsOf (some (printSeconds o.seconds)) o.seconds := denotes_print o.seconds
  constructor <;> simp [print, lastOf, getLast?_toList, *]

theorem complete_iff (o : BackupOptions) :
    o.Complete ↔ (∀ g ∈ o.print, g.Readable names) ∧ Describes o.print o ∧
      o.output ≠ "" ∧ o.snapshots ≠ [] := by
  constructor
  · intro h
    exact ⟨readable_print h, describes_print h.proper, h.output, h.snapshots⟩
  · rintro ⟨-, h, houtput, hsnapshots⟩
    exact ⟨houtput, hsnapshots, proper_of_forall₂ h.snapshots⟩

end BackupOptions

/-! ## Restores -/

namespace RestoreOptions

/-- The flags of the command that writes a restore record. -/
def names : List String := ["--output", "--host", "--duration", "--error"]

/-- What one option changes. -/
inductive Sets : RestoreOptions → Given → RestoreOptions → Prop
  | output (o : RestoreOptions) (value : String) :
      Sets o ⟨"--output", value⟩ { o with output := value }
  | host (o : RestoreOptions) (value : String) :
      Sets o ⟨"--host", value⟩ { o with host := some value }
  | duration (o : RestoreOptions) {value : String} {n : UInt64} : Denotes value n →
      Sets o ⟨"--duration", value⟩ { o with seconds := n }
  | error (o : RestoreOptions) (value : String) :
      Sets o ⟨"--error", value⟩ { o with error := some value }

/-- The options that the command accepts. -/
structure Allowed (given : List Given) : Prop where
  readable : ∀ g ∈ given, g.Readable names
  output : ∃ output, lastOf "--output" given = some output ∧ output ≠ ""

/-- What some options say. -/
structure Describes (given : List Given) (o : RestoreOptions) : Prop where
  output : o.output = (lastOf "--output" given).getD ""
  host : o.host = lastOf "--host" given
  seconds : SecondsOf (lastOf "--duration" given) o.seconds
  error : o.error = lastOf "--error" given

/-- A record that can be asked for. -/
structure Complete (o : RestoreOptions) : Prop where
  output : o.output ≠ ""

/-- The options that ask for a record. -/
def print (o : RestoreOptions) : List Given :=
  ⟨"--output", o.output⟩ :: (row "--host" o.host.toList ++
    [⟨"--duration", printSeconds o.seconds⟩] ++ row "--error" o.error.toList)

variable {o o' : RestoreOptions} {given : List Given} {g : Given}

theorem sets_iff : flags.apply o g = .ok o' ↔ Sets o g o' := by
  obtain ⟨flag, value⟩ := g
  constructor
  · intro h
    unfold Flags.apply at h
    split at h
    · rename_i set hset
      -- one case for each flag, in the order of the table
      dsimp only [flags] at hset h
      split_ifs at hset <;> subst flag <;> cases hset
      case pos => cases h; exact .output o value
      case pos => cases h; exact .host o value
      case pos =>
        obtain ⟨n, hn, h⟩ := bind_eq_ok h
        cases h
        exact .duration o (readSeconds_iff.1 hn)
      case pos => cases h; exact .error o value
    · cases h
  · intro h
    cases h with
    | output | host | error => rfl
    | duration hn =>
      change (readSeconds value >>= _) = _
      rw [readSeconds_iff.2 hn]
      rfl

theorem readable_iff (g : Given) (o : RestoreOptions) :
    (∃ o', Sets o g o') ↔ g.Readable names := by
  constructor
  · rintro ⟨o', h⟩
    cases h with
    | output | host | error => constructor <;> simp [names]
    | duration hn => exact ⟨by simp [names], by simp, fun _ => ⟨_, hn⟩⟩
  · obtain ⟨flag, value⟩ := g
    rintro ⟨hknown, -, hduration⟩
    simp only [names, List.mem_cons, List.not_mem_nil, or_false] at hknown
    rcases hknown with rfl | rfl | rfl | rfl
    · exact ⟨_, .output o value⟩
    · exact ⟨_, .host o value⟩
    · obtain ⟨n, hn⟩ := hduration rfl
      exact ⟨_, .duration o hn⟩
    · exact ⟨_, .error o value⟩

/-- One more option changes what was said by its own field and leaves the others. -/
theorem Describes.step (h : Describes given o) (hset : Sets o g o') :
    Describes (given ++ [g]) o' := by
  obtain ⟨houtput, hhost, hseconds, herror⟩ := h
  cases hset with
  | output | host | error => constructor <;> simp [*]
  | duration hn => constructor <;> simp [SecondsOf, *]

theorem Describes.unique (h : Describes given o) (h' : Describes given o') : o = o' := by
  have hseconds : o.seconds = o'.seconds := h.seconds.unique h'.seconds
  cases o
  cases o'
  rw [mk.injEq]
  exact ⟨h.output.trans h'.output.symm, h.host.trans h'.host.symm, hseconds,
    h.error.trans h'.error.symm⟩

/-- What some options say depends on the values of each flag only. -/
theorem Describes.congr {given' : List Given}
    (hvalues : ∀ flag, valuesOf flag given = valuesOf flag given') (h : Describes given o) :
    Describes given' o := by
  have hlast := lastOf_congr hvalues
  exact ⟨hlast _ ▸ h.output, hlast _ ▸ h.host, hlast _ ▸ h.seconds, hlast _ ▸ h.error⟩

theorem steps : Steps flags {} (Readable names) Describes where
  readable g o := by simp only [sets_iff, readable_iff]
  start := ⟨rfl, rfl, rfl, rfl⟩
  step h hset := h.step (sets_iff.1 hset)
  unique h h' := h.unique h'

theorem ofArguments_iff (tokens : List String) (c : Command) :
    Command.ofArguments ("restore" :: tokens) = .ok c ↔
      ∃ o, c = .restore o ∧ readOptions flags tokens {} = .ok o ∧ o.output ≠ "" := by
  constructor
  · intro h
    obtain ⟨o, ho, rfl⟩ := map_eq_ok h
    obtain ⟨read, hread, ho⟩ := bind_eq_ok ho
    split_ifs at ho with houtput
    cases ho
    exact ⟨o, rfl, hread, houtput⟩
  · rintro ⟨o, rfl, hread, houtput⟩
    change Command.restore <$> (readOptions flags tokens {} >>= _) = _
    rw [hread]
    change Command.restore <$> (if o.output = "" then _ else _) = _
    rw [if_neg houtput]
    rfl

theorem Describes.allowed_iff (hreadable : ∀ g ∈ given, g.Readable names)
    (h : Describes given o) : Allowed given ↔ o.output ≠ "" := by
  rw [h.output, getD_ne_empty]
  exact ⟨fun h => h.output, fun h => ⟨hreadable, h⟩⟩

theorem readable_print (o : RestoreOptions) : ∀ g ∈ o.print, g.Readable names := by
  intro g hg
  simp only [print, List.mem_cons, List.mem_append, mem_row, List.not_mem_nil, or_false] at hg
  rcases hg with rfl | (hg | rfl) | hg
  · constructor <;> simp [names]
  · constructor <;> simp [names, hg.1]
  · exact ⟨by simp [names], by simp, fun _ => ⟨_, denotes_print _⟩⟩
  · constructor <;> simp [names, hg.1]

theorem describes_print (o : RestoreOptions) : Describes o.print o := by
  have hseconds : SecondsOf (some (printSeconds o.seconds)) o.seconds := denotes_print o.seconds
  constructor <;> simp [print, lastOf, getLast?_toList, *]

theorem complete_iff (o : RestoreOptions) :
    o.Complete ↔ (∀ g ∈ o.print, g.Readable names) ∧ Describes o.print o ∧ o.output ≠ "" :=
  ⟨fun h => ⟨o.readable_print, o.describes_print, h.output⟩, fun h => ⟨h.2.2⟩⟩

end RestoreOptions

/-! ## Both commands -/

/-- The commands that write records understand exactly the arguments that give, in pairs, options
that they allow: known flags, captures and numbers of seconds in their form, a last output that is
not empty and, for a backup, at least one snapshot.  The record holds what each option says last and
all the snapshots in order, so that options with different flags may change places, and each
complete record is the result of the arguments that it is printed as. -/
theorem understands_options :
    Understands "backup" Command.backup BackupOptions.Allowed BackupOptions.Describes
      BackupOptions.Complete BackupOptions.print ∧
    Understands "restore" Command.restore RestoreOptions.Allowed RestoreOptions.Describes
      RestoreOptions.Complete RestoreOptions.print := by
  constructor
  · exact BackupOptions.steps.understands BackupOptions.ofArguments_iff Command.backup.inj
      (fun h => h.readable) (fun hreadable h => h.allowed_iff hreadable)
      (fun hvalues h => h.congr hvalues) BackupOptions.complete_iff
  · exact RestoreOptions.steps.understands RestoreOptions.ofArguments_iff Command.restore.inj
      (fun h => h.readable) (fun hreadable h => h.allowed_iff hreadable)
      (fun hvalues h => h.congr hvalues) RestoreOptions.complete_iff

/-- A value may look like a flag, and an output that is given again counts as given last. -/
example : Command.ofArguments ["restore", "--output", "--host", "--error", "", "--output", "a"] =
    .ok (.restore { output := "a", error := some "" }) := by decide

end BackupReport
