import BackupReport.Proofs.Listing.Lines

/-!
# The status that a listing shows

A listing does not show everything: the columns of a snapshot may run into each other, and a dash
may stand for itself.  But the status can be told from it (`listing_status`), as long as all texts
are of one line and host names have no blank.  The first line of a host is then the only one of its
lines that is not indented, and so it is known where a host begins, whatever its error and its paths
look like; the state of the repository has a fixed number of lines at the end.
-/

namespace BackupReport

open Listing

/-! ## Records and their status -/

/-- A snapshot with texts of one line. -/
structure Snapshot.Listable (s : Snapshot) : Prop where
  name : OneLine s.name
  path : OneLine s.path
  totalSize : OneLine s.totalSize
  uploaded : OneLine s.uploaded
  processingTime : OneLine s.processingTime

/-- The backup of a host with texts of one line, and a host name without blanks. -/
structure HostBackup.Listable (h : HostBackup) : Prop where
  hostname : OneLine h.hostname
  unbroken : ' ' ∉ h.hostname.toList
  snapshots : ∀ s ∈ h.snapshots, s.Listable
  duration : OneLine h.duration
  error : OneLine h.error

/-- A record with texts of one line, and host names without blanks. -/
structure BackupRecord.Listable (r : BackupRecord) : Prop where
  hosts : ∀ h ∈ r.hosts, h.Listable
  size : OneLine r.repository.size

/-- How the work on a host went: its phase, duration and error, and the file counters of each of its
snapshots. -/
structure HostStatus where
  phase : Option Phase
  duration : String
  error : String
  files : List FileCounts
deriving DecidableEq

/-- How a session went: the status of each host in order, and of the repository what its checks and
its cleanup reported. -/
structure Status where
  hosts : List HostStatus
  integrity : Option Bool
  snapshotCount : Int64
  removedCount : Int64
deriving DecidableEq

/-- The status of a host. -/
def HostBackup.status (h : HostBackup) : HostStatus where
  phase := h.phase
  duration := h.duration
  error := h.error
  files := h.snapshots.map (·.files)

/-- The status of a record. -/
def BackupRecord.status (r : BackupRecord) : Status where
  hosts := r.hosts.map HostBackup.status
  integrity := r.repository.integrity
  snapshotCount := r.repository.snapshotCount
  removedCount := r.repository.removedCount

namespace Listing

variable {s : Snapshot} {h h' : HostBackup} {r : BackupRecord} {l : String}

/-! ## The lines of a host -/

/-- The first line of a host. -/
def hostLine (h : HostBackup) : String :=
  orDash h.hostname ++ " [" ++ phase h.phase ++ "] " ++ h.duration

/-- The line of an error, if there is one. -/
def errorLines (error : String) : List String :=
  if error = "" then [] else ["  error: " ++ error]

/-- The table of some snapshots, if there are any. -/
def table (snapshots : List Snapshot) : List String :=
  if snapshots.isEmpty then [] else tableHead :: snapshots.flatMap snapshot

theorem hostBackup_eq (h : HostBackup) :
    hostBackup h = hostLine h :: (errorLines h.error ++ table h.snapshots) := rfl

theorem eq_of_mem_errorLines {error : String} (hl : l ∈ errorLines error) :
    l = "  error: " ++ error := by
  unfold errorLines at hl
  split at hl
  · cases hl
  · exact List.mem_singleton.1 hl

theorem mem_snapshot (hl : l ∈ snapshot s) :
    l = row s.path (orDash s.name) (orDash s.totalSize) (orDash s.uploaded)
      (orDash s.processingTime) ∨ l = fileCounts s.files := by
  simpa only [snapshot, List.mem_cons, List.not_mem_nil, or_false] using hl

theorem mem_table {snapshots : List Snapshot} (hl : l ∈ table snapshots) :
    l = tableHead ∨ ∃ s ∈ snapshots, l ∈ snapshot s := by
  unfold table at hl
  split at hl
  · cases hl
  · exact (List.mem_cons.1 hl).imp_right List.mem_flatMap.1

/-! ## Every line is one line -/

theorem oneLine_phase (p : Option Phase) : OneLine (phase p) := by
  rcases p with _ | _ | _ <;> decide

theorem oneLine_row {path name total uploaded time : String} (hpath : OneLine path)
    (hname : OneLine name) (htotal : OneLine total) (huploaded : OneLine uploaded)
    (htime : OneLine time) : OneLine (row path name total uploaded time) := by
  have hblank : OneLine " " := by decide
  have hindent : OneLine "    " := by decide
  unfold row
  simp only [oneLine_append, oneLine_left, oneLine_right]
  simp only [hpath, hname, htotal, huploaded, htime, hblank, hindent, and_self]

theorem oneLine_fileCounts (c : FileCounts) : OneLine (fileCounts c) := by
  unfold fileCounts
  simp only [oneLine_append, oneLine_counter, and_true]
  decide

theorem oneLine_hostBackup (hh : h.Listable) (hl : l ∈ hostBackup h) : OneLine l := by
  rw [hostBackup_eq, List.mem_cons, List.mem_append] at hl
  rcases hl with rfl | hl | hl
  · simp only [hostLine, oneLine_append, oneLine_phase, hh.duration, oneLine_orDash hh.hostname,
      and_true, true_and]
    decide
  · rw [eq_of_mem_errorLines hl]
    exact oneLine_append.2 ⟨by decide, hh.error⟩
  · obtain rfl | ⟨s, hs, hl⟩ := mem_table hl
    · exact oneLine_row (by decide) (by decide) (by decide) (by decide) (by decide)
    · have hlistable := hh.snapshots s hs
      obtain rfl | rfl := mem_snapshot hl
      · exact oneLine_row hlistable.path (oneLine_orDash hlistable.name)
          (oneLine_orDash hlistable.totalSize) (oneLine_orDash hlistable.uploaded)
          (oneLine_orDash hlistable.processingTime)
      · exact oneLine_fileCounts s.files

theorem oneLine_repository (hsize : OneLine r.repository.size) (hl : l ∈ repository r.repository) :
    OneLine l := by
  have hinteger : ∀ n : Int64, OneLine (toString n.toInt) := fun n => oneLine_counter (some n)
  have hintegrity : OneLine (integrity r.repository.integrity) := by
    rcases r.repository.integrity with _ | _ | _ <;> decide
  unfold repository at hl
  simp only [List.mem_cons, List.not_mem_nil, or_false] at hl
  rcases hl with rfl | rfl | rfl | rfl | rfl | rfl
  · decide
  · decide
  · exact oneLine_append.2 ⟨by decide, hintegrity⟩
  · exact oneLine_append.2 ⟨by decide, oneLine_orDash hsize⟩
  · exact oneLine_append.2 ⟨by decide, hinteger _⟩
  · exact oneLine_append.2 ⟨by decide, hinteger _⟩

theorem oneLine_backupLines (hr : r.Listable) (hl : l ∈ backupLines r) : OneLine l := by
  rcases List.mem_append.1 hl with hl | hl
  · split at hl
    · cases List.mem_singleton.1 hl
      decide
    · obtain ⟨h, hh, hl⟩ := List.mem_flatMap.1 hl
      exact oneLine_hostBackup (hr.hosts h hh) hl
  · exact oneLine_repository hr.size hl

/-! ## Where a host begins -/

/-- A line with a blank at its start. -/
def indented (line : String) : Bool := line.toList.head? == some ' '

theorem indented_append {s : String} (hs : indented s = true) (t : String) :
    indented (s ++ t) = true := by
  unfold indented at hs ⊢
  rw [String.toList_append, List.head?_append, eq_of_beq hs]
  rfl

theorem indented_row (path name total uploaded time : String) :
    indented (row path name total uploaded time) = true := by
  have hindent : indented "    " = true := by decide
  unfold row
  simp only [String.append_assoc]
  exact indented_append hindent _

theorem indented_fileCounts (c : FileCounts) : indented (fileCounts c) = true := by
  have hindent : indented "      files: " = true := by decide
  unfold fileCounts
  simp only [String.append_assoc]
  exact indented_append hindent _

/-- Behind its first line, every line of a host is indented. -/
theorem indented_behind (hl : l ∈ errorLines h.error ++ table h.snapshots) :
    indented l = true := by
  rcases List.mem_append.1 hl with hl | hl
  · rw [eq_of_mem_errorLines hl]
    exact indented_append (by decide) _
  · obtain rfl | ⟨s, -, hl⟩ := mem_table hl
    · exact indented_row ..
    · obtain rfl | rfl := mem_snapshot hl
      · exact indented_row ..
      · exact indented_fileCounts s.files

theorem toList_hostLine (h : HostBackup) : (hostLine h).toList =
    (orDash h.hostname).toList ++ ' ' :: '[' :: ((phase h.phase).toList ++
      ']' :: ' ' :: h.duration.toList) := by
  have hopen : " [".toList = [' ', '['] := rfl
  have hclose : "] ".toList = [']', ' '] := rfl
  simp only [hostLine, String.toList_append, List.append_assoc, hopen, hclose, List.cons_append,
    List.nil_append]

theorem blank_not_mem_orDash {s : String} (hs : ' ' ∉ s.toList) : ' ' ∉ (orDash s).toList := by
  unfold orDash
  split
  · decide
  · exact hs

theorem indented_hostLine (hh : h.Listable) : indented (hostLine h) = false := by
  have hunbroken := blank_not_mem_orDash hh.unbroken
  have hne : (orDash h.hostname).toList ≠ [] := by
    unfold orDash
    split
    · decide
    · exact mt String.toList_eq_nil_iff.1 ‹_›
  obtain ⟨c, cs, hname⟩ := List.exists_cons_of_ne_nil hne
  rw [hname] at hunbroken
  have hc : ' ' ≠ c := List.ne_of_not_mem_cons hunbroken
  unfold indented
  rw [toList_hostLine, hname]
  simpa using hc.symm

/-- The lines of a host behind the first end in front of the next host. -/
theorem takeWhile_indented {hs : List HostBackup} (hhs : ∀ h ∈ hs, h.Listable) (h : HostBackup) :
    ((errorLines h.error ++ table h.snapshots) ++ hs.flatMap hostBackup).takeWhile indented =
      errorLines h.error ++ table h.snapshots := by
  have hnext : (hs.flatMap hostBackup).takeWhile indented = [] := by
    cases hs with
    | nil => rfl
    | cons h' hs =>
      rw [List.flatMap_cons, hostBackup_eq, List.cons_append, List.takeWhile_cons_of_neg]
      rw [indented_hostLine (hhs h' List.mem_cons_self)]
      exact Bool.false_ne_true
  rw [List.takeWhile_append_of_pos fun _ => indented_behind, hnext, List.append_nil]

/-! ## What the lines of a host say -/

theorem phase_injective : Function.Injective phase := by
  intro p p'
  rcases p with _ | _ | _ <;> rcases p' with _ | _ | _ <;> decide

theorem hostLine_eq (hh : h.Listable) (hh' : h'.Listable) (heq : hostLine h = hostLine h') :
    h.phase = h'.phase ∧ h.duration = h'.duration := by
  have hbracket : ∀ p, ']' ∉ (phase p).toList := by
    rintro (_ | _ | _) <;> decide
  have hline := congrArg String.toList heq
  rw [toList_hostLine, toList_hostLine] at hline
  obtain ⟨-, hline⟩ := append_cons_inj (blank_not_mem_orDash hh.unbroken)
    (blank_not_mem_orDash hh'.unbroken) hline
  obtain ⟨hphase, hline⟩ := append_cons_inj (hbracket _) (hbracket _) (List.cons.inj hline).2
  exact ⟨phase_injective (String.toList_inj.1 hphase),
    String.toList_inj.1 (List.cons.inj hline).2⟩

/-- Each snapshot has two lines, of which the second shows its counters. -/
theorem parts_snapshots : Parts (fun _ => True) snapshot (·.files) where
  nonempty s := List.cons_ne_nil _ _
  first _ _ _ _ h := by
    obtain ⟨-, h⟩ := List.cons.inj h
    obtain ⟨hfiles, h⟩ := List.cons.inj h
    exact ⟨fileCounts_injective hfiles, h⟩

theorem table_eq {snapshots snapshots' : List Snapshot} (heq : table snapshots = table snapshots') :
    snapshots.map (·.files) = snapshots'.map (·.files) := by
  unfold table at heq
  split at heq <;> split at heq
  · rw [List.isEmpty_iff.1 ‹snapshots.isEmpty›, List.isEmpty_iff.1 ‹snapshots'.isEmpty›]
  · cases heq
  · cases heq
  · exact parts_snapshots.map_eq (fun _ _ => trivial) (fun _ _ => trivial) (List.cons.inj heq).2

/-- The head of a table is no error: it is indented further. -/
theorem table_ne_error (snapshots : List Snapshot) (error : String) (later : List String) :
    table snapshots ≠ ("  error: " ++ error) :: later := by
  unfold table
  split
  · exact (List.cons_ne_nil _ _).symm
  · intro heq
    have hhead : tableHead.toList[2]? = some ' ' := by
      unfold tableHead row
      simp only [String.append_assoc]
      rw [String.toList_append]
      rfl
    have herror : ("  error: " ++ error).toList[2]? = some 'e' := by
      rw [String.toList_append]
      rfl
    rw [(List.cons.inj heq).1, herror] at hhead
    cases hhead

/-- The line of an error and the table can be told apart, also if one of them is missing. -/
theorem errorLines_table_eq {error error' : String} {snapshots snapshots' : List Snapshot}
    (heq : errorLines error ++ table snapshots = errorLines error' ++ table snapshots') :
    error = error' ∧ table snapshots = table snapshots' := by
  unfold errorLines at heq
  split at heq <;> split at heq
  · exact ⟨(‹error = ""›).trans (‹error' = ""›).symm, heq⟩
  · exact (table_ne_error _ _ _ heq).elim
  · exact (table_ne_error _ _ _ heq.symm).elim
  · obtain ⟨hline, htable⟩ := List.cons.inj heq
    exact ⟨(String.append_right_inj _).1 hline, htable⟩

theorem parts_hosts : Parts HostBackup.Listable hostBackup HostBackup.status where
  nonempty h := List.cons_ne_nil _ _
  first {h h' hs hs'} hh hh' hhs hhs' heq := by
    rw [hostBackup_eq, hostBackup_eq, List.cons_append, List.cons_append] at heq
    obtain ⟨hline, hbehind⟩ := List.cons.inj heq
    -- on either side the lines of the host end with the last that is indented
    have hbody := congrArg (List.takeWhile indented) hbehind
    rw [takeWhile_indented hhs, takeWhile_indented hhs'] at hbody
    obtain ⟨hphase, hduration⟩ := hostLine_eq hh hh' hline
    obtain ⟨herror, htable⟩ := errorLines_table_eq hbody
    refine ⟨?_, List.append_cancel_left (hbody ▸ hbehind)⟩
    simp only [HostBackup.status, hphase, hduration, herror, table_eq htable]

/-! ## The status -/

/-- The lines of some hosts, or the line that stands for them. -/
def hostsLines (hosts : List HostBackup) : List String :=
  if hosts.isEmpty then [noHosts] else hosts.flatMap hostBackup

theorem noHosts_ne_hosts {hosts : List HostBackup} (hhosts : ∀ h ∈ hosts, h.Listable) :
    [noHosts] ≠ hosts.flatMap hostBackup := by
  intro heq
  cases hosts with
  | nil => cases heq
  | cons h hosts =>
    have hline := congrArg String.toList (List.cons.inj heq).1
    have hnone : noHosts.toList = ['N', 'o'] ++ ' ' :: "hosts recorded.".toList := rfl
    change noHosts.toList = (hostLine h).toList at hline
    rw [hnone, toList_hostLine] at hline
    obtain ⟨-, hline⟩ := append_cons_inj (by decide)
      (blank_not_mem_orDash (hhosts h List.mem_cons_self).unbroken) hline
    cases (List.cons.inj hline).1

theorem hostsLines_eq {hosts hosts' : List HostBackup} (hhosts : ∀ h ∈ hosts, h.Listable)
    (hhosts' : ∀ h ∈ hosts', h.Listable) (heq : hostsLines hosts = hostsLines hosts') :
    hosts.map HostBackup.status = hosts'.map HostBackup.status := by
  unfold hostsLines at heq
  split at heq <;> split at heq
  · rw [List.isEmpty_iff.1 ‹hosts.isEmpty›, List.isEmpty_iff.1 ‹hosts'.isEmpty›]
  · exact absurd heq (noHosts_ne_hosts hhosts')
  · exact absurd heq.symm (noHosts_ne_hosts hhosts)
  · exact parts_hosts.map_eq hhosts hhosts' heq

theorem integrity_injective : Function.Injective integrity := by
  intro i i'
  rcases i with _ | _ | _ <;> rcases i' with _ | _ | _ <;> decide

theorem repository_eq {repo repo' : Repository} (heq : repository repo = repository repo') :
    repo.integrity = repo'.integrity ∧ repo.snapshotCount = repo'.snapshotCount ∧
      repo.removedCount = repo'.removedCount := by
  have hcount : ∀ {n n' : Int64}, toString n.toInt = toString n'.toInt → n = n' := by
    intro n n' h
    exact Option.some.inj (counter_injective h)
  unfold repository at heq
  simp only [List.cons.injEq, String.append_right_inj, and_true, true_and] at heq
  obtain ⟨hintegrity, -, hsnapshots, hremoved⟩ := heq
  exact ⟨integrity_injective hintegrity, hcount hsnapshots, hcount hremoved⟩

end Listing

/-- A listing says what the status of the record is. -/
theorem listing_status {r r' : BackupRecord} (hr : r.Listable) (hr' : r'.Listable)
    (h : Listing.backup r = Listing.backup r') : r.status = r'.status := by
  have hlines : backupLines r = backupLines r' :=
    text_injective (fun _ => oneLine_backupLines hr) (fun _ => oneLine_backupLines hr') h
  -- the repository has as many lines in one listing as in the other
  obtain ⟨hhosts, hrepository⟩ := List.append_inj' hlines rfl
  obtain ⟨hintegrity, hsnapshots, hremoved⟩ := repository_eq hrepository
  simp only [BackupRecord.status, hostsLines_eq hr.hosts hr'.hosts hhosts, hintegrity, hsnapshots,
    hremoved]

/-- A record of one host with an error, of which some counters are known. -/
def recordNamed (hostname : String) : BackupRecord where
  hosts := [{
    hostname
    phase := some .failed
    error := "disk full"
    snapshots := [{ path := "/etc", files := { total := some 3, added := some 0 } }] }]

theorem recordNamed_listable {hostname : String} (hline : OneLine hostname)
    (hunbroken : ' ' ∉ hostname.toList) : (recordNamed hostname).Listable where
  hosts h hh := by
    cases List.mem_singleton.1 hh
    refine ⟨hline, hunbroken, ?_, (by decide : OneLine ""), (by decide : OneLine "disk full")⟩
    intro s hs
    cases List.mem_singleton.1 hs
    exact ⟨by decide, by decide, by decide, by decide, by decide⟩
  size := (by decide : OneLine "")

/-- A host without a name is listed like one that is called by a dash. -/
theorem listing_status_unnamed :
    Listing.backup (recordNamed "") = Listing.backup (recordNamed "-") ∧
      (recordNamed "").status = (recordNamed "-").status :=
  ⟨rfl, listing_status (recordNamed_listable (by decide) (by decide))
    (recordNamed_listable (by decide) (by decide)) rfl⟩

end BackupReport
