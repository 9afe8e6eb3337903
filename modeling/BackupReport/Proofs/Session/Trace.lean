import BackupReport.Session
import Mathlib.Data.List.Forall2
import Mathlib.Data.List.ReduceOption

/-!
# What a session leaves behind

A step adds a host, or nothing, and returns a result; `BackupStep.Yields` says which.  A step also
sets a part of the repository, or leaves it as it was (`BackupStep.onRepository`).  Behind any
number of steps the hosts are those that were added, in order and as they were added, and each part
of the repository is what the last step has left that could set it (`BackupStep.trace_leaves`).
-/

namespace BackupReport

/-- Whatever stands in the first of two lists that match has a match in the second. -/
theorem exists_match {α β : Type} {R : α → β → Prop} {as : List α} {bs : List β}
    (h : List.Forall₂ R as bs) {a : α} (ha : a ∈ as) : ∃ b ∈ bs, R a b := by
  induction h with
  | nil => cases ha
  | cons hab _ ih =>
    rcases List.mem_cons.1 ha with rfl | ha
    · exact ⟨_, List.mem_cons_self, hab⟩
    · obtain ⟨b, hb, hab⟩ := ih ha
      exact ⟨b, List.mem_cons_of_mem _ hb, hab⟩

/-! ## Hosts -/

/-- Some outputs all decode, and these are the snapshots that they report. -/
def Reported (outputs : List RunOutput) (found : List Snapshot) : Prop :=
  List.Forall₂ (fun o s => (Snapshot.ofOutput o.path o.bytes).value = .ok s) outputs found

namespace BackupRecord

theorem hasFailures_iff (r : BackupRecord) :
    r.hasFailures = true ↔ ∃ h ∈ r.hosts, h.phase = some .failed := by
  simp [hasFailures]

/-- Either all outputs decode, or there is a first one that does not. -/
theorem snapshots_value (hostname : String) (outputs : List RunOutput) :
    (∃ found, Reported outputs found ∧ (snapshots hostname outputs).value = (found, none)) ∨
      ∃ before output after found e, outputs = before ++ output :: after ∧
        Reported before found ∧ (Snapshot.ofOutput output.path output.bytes).value = .error e ∧
        (snapshots hostname outputs).value = (found, some e) := by
  induction outputs with
  | nil => exact .inl ⟨[], .nil, rfl⟩
  | cons output later ih =>
    cases ho : (Snapshot.ofOutput output.path output.bytes).value with
    | error e =>
      refine .inr ⟨[], output, later, [], e, rfl, .nil, ho, ?_⟩
      simp only [snapshots, Logged.value_bind, ho, Logged.value_pure]
    | ok s =>
      rcases ih with ⟨found, hfound, hvalue⟩ | ⟨before, o, after, found, e, rfl, hfound, he, hvalue⟩
      · refine .inl ⟨s :: found, .cons ho hfound, ?_⟩
        simp only [snapshots, Logged.value_bind, ho, hvalue, Logged.value_pure]
      · refine .inr ⟨output :: before, o, after, s :: found, e, rfl, .cons ho hfound, he, ?_⟩
        simp only [snapshots, Logged.value_bind, ho, hvalue, Logged.value_pure]

end BackupRecord

namespace BackupStep

/-- The host that a step adds, if it adds one, and the result that it returns.  A host of which some
output does not decode keeps the snapshots of the outputs before the first such one. -/
inductive Yields : BackupStep → Option HostBackup → Except Error Unit → Prop
  | succeeded {hostname : String} {outputs : List RunOutput} {seconds : UInt64}
      {found : List Snapshot} : Reported outputs found →
      Yields (.addHost hostname outputs seconds)
        (some { hostname := hostname, phase := some .succeeded, snapshots := found,
                duration := Duration.text seconds, error := "" })
        (.ok ())
  | failed {hostname : String} {before after : List RunOutput} {output : RunOutput}
      {seconds : UInt64} {found : List Snapshot} {e : Error} : Reported before found →
      (Snapshot.ofOutput output.path output.bytes).value = .error e →
      Yields (.addHost hostname (before ++ output :: after) seconds)
        (some { hostname := hostname, phase := some .failed, snapshots := found,
                duration := Duration.text seconds, error := e.message })
        (.error e)
  | absent {hostname error : String} :
      Yields (.addFailedHost hostname error)
        (some { hostname := hostname, phase := some .failed, snapshots := [], duration := "",
                error := error })
        (.ok ())
  | retention {output : List UInt8} :
      Yields (.applyRetention output) none ((Retention.totals output).value.map fun _ => ())
  | integrity {output : List UInt8} : Yields (.applyIntegrity output) none (.ok ())
  | size {output : List UInt8} :
      Yields (.applySize output) none ((RepositorySize.text output).map fun _ => ())

/-- A host from outputs failed if one of these does not decode, and succeeded otherwise. -/
theorem Yields.phase_eq {hostname : String} {outputs : List RunOutput} {seconds : UInt64}
    {h : HostBackup} {result : Except Error Unit}
    (hyields : Yields (.addHost hostname outputs seconds) (some h) result) :
    h.phase = some .succeeded ∧
        (∀ o ∈ outputs, ∃ s, (Snapshot.ofOutput o.path o.bytes).value = .ok s) ∨
      h.phase = some .failed ∧
        ∃ o ∈ outputs, ∃ e, (Snapshot.ofOutput o.path o.bytes).value = .error e := by
  cases hyields with
  | succeeded hfound =>
    refine .inl ⟨rfl, fun o ho => ?_⟩
    obtain ⟨s, -, hs⟩ := exists_match hfound ho
    exact ⟨s, hs⟩
  | failed _ he => exact .inr ⟨rfl, _, List.mem_append_right _ List.mem_cons_self, _, he⟩

/-! ## The repository -/

/-- The totals that a step reports, if it applies the output of a retention run and that decodes. -/
def totals? : BackupStep → Option Retention.Totals
  | .applyRetention output => (Retention.totals output).value.toOption
  | _ => none

/-- The integrity that a step reports, if it applies the output of an integrity check. -/
def integrity? : BackupStep → Option Bool
  | .applyIntegrity output => some (Integrity.check output).value
  | _ => none

/-- The size that a step reports, if it applies the output of a statistics run and that decodes. -/
def size? : BackupStep → Option String
  | .applySize output => (RepositorySize.text output).toOption
  | _ => none

/-- The repository with what a step reports about it. -/
def onRepository (q : Repository) (s : BackupStep) : Repository :=
  { integrity := s.integrity?.or q.integrity
    size := s.size?.getD q.size
    snapshotCount := (s.totals?.map Retention.Totals.kept).getD q.snapshotCount
    removedCount := (s.totals?.map Retention.Totals.removed).getD q.removedCount }

/-! ## One step -/

/-- A step adds what it yields behind the hosts, and sets what it reports about the repository. -/
theorem apply_value (s : BackupStep) (r : BackupRecord) : ∃ added result, s.Yields added result ∧
    (s.apply r).value = (⟨r.hosts ++ added.toList, onRepository r.repository s⟩, result) := by
  cases s with
  | addHost hostname outputs seconds =>
    rcases BackupRecord.snapshots_value hostname outputs with
      ⟨found, hfound, hvalue⟩ | ⟨before, output, after, found, e, rfl, hfound, he, hvalue⟩
    · refine ⟨_, _, .succeeded hfound, ?_⟩
      simp only [apply, BackupRecord.addHost, Logged.value_bind, hvalue, Logged.value_pure]
      rfl
    · refine ⟨_, _, .failed hfound he, ?_⟩
      simp only [apply, BackupRecord.addHost, Logged.value_bind, hvalue, Logged.value_pure]
      rfl
  | addFailedHost hostname error => exact ⟨_, _, .absent, rfl⟩
  | applyRetention output =>
    refine ⟨_, _, .retention, ?_⟩
    simp only [apply, BackupRecord.applyRetention, Logged.value_bind, onRepository, totals?,
      Option.toList_none, List.append_nil]
    cases (Retention.totals output).value <;> rfl
  | applyIntegrity output =>
    refine ⟨_, _, .integrity, ?_⟩
    simp only [apply, Logged.value_bind, BackupRecord.applyIntegrity_value, Logged.value_pure,
      Option.toList_none, List.append_nil]
    rfl
  | applySize output =>
    refine ⟨_, _, .size, ?_⟩
    simp only [apply, BackupRecord.applySize, Logged.value_pure, onRepository, size?,
      Option.toList_none, List.append_nil]
    cases RepositorySize.text output <;> rfl

/-! ## Many steps -/

theorem afterTrace_cons (r : BackupRecord) (result : BackupRecord × Except Error Unit)
    (results : List (BackupRecord × Except Error Unit)) :
    r.afterTrace (result :: results) = result.1.afterTrace results := by
  simp only [BackupRecord.afterTrace, List.getLast?_cons, Option.map_some, Option.getD_some]
  cases results.getLast? <;> rfl

/-- Some steps from any record on: they add behind its hosts what they yield, and set in turn what
they report about its repository. -/
theorem trace_value (steps : List BackupStep) (r : BackupRecord) :
    ∃ yields : List (Option HostBackup × Except Error Unit),
      List.Forall₂ (fun s y => s.Yields y.1 y.2) steps yields ∧
      (trace steps r).value.map Prod.snd = yields.map Prod.snd ∧
      ∀ n, r.afterTrace ((trace steps r).value.take n) =
        ⟨r.hosts ++ ((yields.take n).map Prod.fst).reduceOption,
          (steps.take n).foldl onRepository r.repository⟩ := by
  -- the later steps start from the record that the first one leaves
  induction steps generalizing r with
  | nil => exact ⟨[], .nil, rfl, fun n => by simp [trace, BackupRecord.afterTrace]⟩
  | cons s later ih =>
    obtain ⟨added, result, hyields, happly⟩ := s.apply_value r
    obtain ⟨yields, hall, hresults, hafter⟩ :=
      ih ⟨r.hosts ++ added.toList, onRepository r.repository s⟩
    have htrace : (trace (s :: later) r).value = (s.apply r).value ::
        (trace later (s.apply r).value.1).value := rfl
    rw [htrace, happly]
    refine ⟨(added, result) :: yields, .cons hyields hall, ?_, fun n => ?_⟩
    · rw [List.map_cons, List.map_cons, hresults]
    · cases n with
      | zero => simp [BackupRecord.afterTrace]
      | succ n =>
        rw [List.take_succ_cons, afterTrace_cons, hafter n]
        cases added <;> simp [List.reduceOption_cons_of_none, List.reduceOption_cons_of_some]

/-! ## The last report -/

section LastReport

variable {α : Type} (report : BackupStep → Option α)

/-- What was reported last of something, by some steps. -/
def last (steps : List BackupStep) : Option α := (steps.filterMap report).getLast?

theorem last_cons (s : BackupStep) (later : List BackupStep) :
    last report (s :: later) = (last report later).or (report s) := by
  unfold last
  cases hs : report s with
  | none => rw [List.filterMap_cons_none hs, Option.or_none]
  | some a =>
    rw [List.filterMap_cons_some hs, List.getLast?_cons]
    cases (later.filterMap report).getLast? <;> rfl

end LastReport

/-- Behind some steps each part of the repository is what was reported last of it, and what it was
before if nothing was. -/
theorem foldl_onRepository (steps : List BackupStep) (q : Repository) :
    steps.foldl onRepository q =
      { integrity := (last integrity? steps).or q.integrity
        size := (last size? steps).getD q.size
        snapshotCount := ((last totals? steps).map Retention.Totals.kept).getD q.snapshotCount
        removedCount :=
          ((last totals? steps).map Retention.Totals.removed).getD q.removedCount } := by
  induction steps generalizing q with
  | nil => rfl
  | cons s later ih =>
    rw [List.foldl_cons, ih]
    simp only [last_cons, onRepository]
    cases last integrity? later <;> cases last size? later <;> cases last totals? later <;> rfl

/-- The record that a session is left with: the hosts that its steps have added, and of each part of
the repository what was reported last.  It has failures if one of these hosts failed. -/
structure Leaves (steps : List BackupStep) (added : List (Option HostBackup))
    (r : BackupRecord) : Prop where
  hosts : r.hosts = added.reduceOption
  integrity : r.repository.integrity = last integrity? steps
  size : r.repository.size = (last size? steps).getD ""
  totals : (⟨r.repository.snapshotCount, r.repository.removedCount⟩ : Retention.Totals) =
    (last totals? steps).getD ⟨0, 0⟩
  failures : r.hasFailures = true ↔ ∃ h, some h ∈ added ∧ h.phase = some .failed

/-- Each step of a session yields a host or none and returns a result, and behind the first `n`
steps, for every `n`, the record holds the hosts that these have added, in order, and the last
reports of these. -/
theorem trace_leaves (steps : List BackupStep) :
    ∃ yields : List (Option HostBackup × Except Error Unit),
      List.Forall₂ (fun s y => s.Yields y.1 y.2) steps yields ∧
      (trace steps {}).value.map Prod.snd = yields.map Prod.snd ∧
      ∀ n, Leaves (steps.take n) ((yields.take n).map Prod.fst)
        (BackupRecord.afterTrace {} ((trace steps {}).value.take n)) := by
  obtain ⟨yields, hall, hresults, hafter⟩ := trace_value steps {}
  refine ⟨yields, hall, hresults, fun n => ?_⟩
  rw [hafter n, foldl_onRepository]
  refine ⟨List.nil_append _, Option.or_none, rfl, ?_, ?_⟩
  · cases last totals? (steps.take n) <;> rfl
  · rw [BackupRecord.hasFailures_iff]
    simp only [List.reduceOption_mem_iff, List.nil_append]

end BackupStep

end BackupReport
