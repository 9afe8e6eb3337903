import BackupReport.Proofs.Duration.Components
import BackupReport.Proofs.Session.Trace
import BackupReport.Proofs.Stream.Failure
import BackupReport.Proofs.Stream.FirstSummary
import Mathlib.Algebra.Order.Ring.Nat

/-!
# What a session writes to the log

An extraction that finds no summary leaves a snapshot without a size, and a warning.  An integrity
check that does not report success leaves a warning too, and nothing else does.  A host of which
some output does not decode leaves an error, and nothing else does.  So the warnings and errors in
the log of a session can be counted in the record and the results that it leaves behind
(`BackupStep.trace_log`).

A step accounts for what it changes (`BackupStep.apply_accounts`), and what is accounted for adds up
along the steps (`Accounts.trans`).
-/

namespace BackupReport

open Json

/-! ## Levels -/

theorem countP_cons_toNat {α : Type} (p : α → Bool) (a : α) (later : List α) :
    (a :: later).countP p = (p a).toNat + later.countP p := by
  rw [List.countP_cons, Nat.add_comm]
  cases p a <;> rfl

/-- How many of some events have a level. -/
def countAt (level : Level) (events : List Event) : Nat := events.countP (·.level = level)

section Levels

variable {α β : Type} (level : Level)

theorem countAt_append (before after : List Event) :
    countAt level (before ++ after) = countAt level before + countAt level after :=
  List.countP_append

@[simp] theorem countAt_pure (a : α) : countAt level (pure a : Logged α).events = 0 := rfl

@[simp] theorem countAt_note (e : Event) :
    countAt level (Logged.note e).events = (decide (e.level = level)).toNat :=
  countP_cons_toNat _ _ []

@[simp] theorem countAt_bind (x : Logged α) (f : α → Logged β) :
    countAt level (x >>= f).events = countAt level x.events + countAt level (f x.value).events :=
  countAt_append _ _ _

end Levels

/-! ## One output -/

/-- All items of a stream are messages, and none of these is a summary. -/
def lacksSummary (items : List (Except Fault Message)) : Bool :=
  items.all fun
    | .ok m => !m.isSummary
    | .error _ => false

namespace Snapshot

/-- Whether a snapshot has no size. -/
def unsized (s : Snapshot) : Bool := s.totalSize == ""

/-- A snapshot has each of the texts that a summary gives it. -/
structure Complete (s : Snapshot) : Prop where
  totalSize : s.totalSize ≠ ""
  uploaded : s.uploaded ≠ ""
  processingTime : s.processingTime ≠ ""

theorem complete_toSnapshot (m : Message) (path : String) : Complete (m.toSnapshot path) :=
  ⟨Size.text_ne_empty _, Size.text_ne_empty _, Duration.text_ne_empty _⟩

theorem Complete.unsized_eq {s : Snapshot} (h : Complete s) : s.unsized = false :=
  beq_eq_false_iff_ne.2 h.totalSize

/-- How an extraction from the items of a stream ends, and what it notes. -/
inductive Extracts (path : String) (items : List (Except Fault Message)) :
    Logged (Except Error Snapshot) → Prop
  | missing {n : Nat} : lacksSummary items = true →
      Extracts path items ⟨.ok { path := path }, [.summaryMissing path n]⟩
  | found {n : Nat} {m : Message} : lacksSummary items = false → .ok m ∈ items →
      m.isSummary = true → Extracts path items (found path n m)
  | refused {f : Fault} : lacksSummary items = false →
      Extracts path items ⟨.error (.ofFault f), []⟩

namespace Extracts

variable {path : String} {items later : List (Except Fault Message)}
  {x : Logged (Except Error Snapshot)}

/-- A message that is no summary changes nothing. -/
theorem progress {m : Message} (hm : m.isSummary = false) (h : Extracts path later x) :
    Extracts path (.ok m :: later) x := by
  have hlacks : lacksSummary (.ok m :: later) = lacksSummary later := by
    simp [lacksSummary, hm]
  cases h with
  | missing h => exact .missing (hlacks.trans h)
  | found h hmem hsummary => exact .found (hlacks.trans h) (List.mem_cons_of_mem _ hmem) hsummary
  | refused h => exact .refused (hlacks.trans h)

/-- There is a warning if no summary is found, and nothing else that matters. -/
theorem log (h : Extracts path items x) :
    countAt .warn x.events = (lacksSummary items).toNat ∧ countAt .error x.events = 0 := by
  cases h with
  | missing hlacks => rw [hlacks]; exact ⟨rfl, rfl⟩
  | found hlacks => rw [hlacks]; exact ⟨rfl, rfl⟩
  | refused hlacks => rw [hlacks]; exact ⟨rfl, rfl⟩

/-- Without a summary the snapshot holds the path only.  Any other snapshot is that of a summary,
and complete. -/
theorem of_ok {s : Snapshot} (h : Extracts path items x) (hx : x.value = .ok s) :
    (lacksSummary items = true ∧ s = { path := path }) ∨
      (lacksSummary items = false ∧ s.Complete ∧
        ∃ m, .ok m ∈ items ∧ m.isSummary = true ∧ s = m.toSnapshot path) := by
  cases h with
  | missing hlacks =>
    cases hx
    exact .inl ⟨hlacks, rfl⟩
  | found hlacks hmem hsummary =>
    cases hx
    exact .inr ⟨hlacks, complete_toSnapshot _ _, _, hmem, hsummary, rfl⟩
  | refused => cases hx

theorem unsized_eq {s : Snapshot} (h : Extracts path items x) (hx : x.value = .ok s) :
    s.unsized = lacksSummary items := by
  rcases h.of_ok hx with ⟨hlacks, rfl⟩ | ⟨hlacks, hcomplete, -⟩
  · exact hlacks.symm
  · rw [hlacks, hcomplete.unsized_eq]

/-- A stream that cannot be decoded is not one that lacks a summary, whatever stands in it. -/
theorem of_error {e : Error} (h : Extracts path items x) (hx : x.value = .error e) :
    lacksSummary items = false := by
  cases h with
  | missing => cases hx
  | found => cases hx
  | refused hlacks => exact hlacks

end Extracts

theorem ofItems_extracts (path : String) (n : Nat) (items : List (Except Fault Message)) :
    Extracts path items (ofItems path n items) := by
  induction items generalizing n with
  | nil => exact .missing rfl
  | cons item later ih =>
    cases item with
    | error f => exact .refused rfl
    | ok m =>
      rw [ofItems]
      cases hm : m.isSummary with
      | true => exact .found (by simp [lacksSummary, hm]) List.mem_cons_self hm
      | false => exact (ih (n + 1)).progress hm

end Snapshot

namespace RunOutput

/-- The items of an output are messages, and none of these is a summary. -/
def lacksSummary (o : RunOutput) : Bool :=
  BackupReport.lacksSummary (items Message.decode o.bytes)

/-- Whether a snapshot can be had from an output. -/
def decodes (o : RunOutput) : Bool := (Snapshot.ofOutput o.path o.bytes).value.isOk

theorem extracts (o : RunOutput) :
    Snapshot.Extracts o.path (items Message.decode o.bytes) (Snapshot.ofOutput o.path o.bytes) :=
  Snapshot.ofItems_extracts o.path 0 _

end RunOutput

/-! ## The outputs of a host -/

/-- How many outputs of a host lack a summary.  Those behind the first that does not decode are not
looked at. -/
def lacking (outputs : List RunOutput) : Nat :=
  (outputs.takeWhile RunOutput.decodes).countP RunOutput.lacksSummary

theorem lacking_refused {o : RunOutput} {e : Error} (later : List RunOutput)
    (ho : (Snapshot.ofOutput o.path o.bytes).value = .error e) : lacking (o :: later) = 0 := by
  have hdecodes : ¬ o.decodes = true := by rw [RunOutput.decodes, ho]; exact Bool.false_ne_true
  rw [lacking, List.takeWhile_cons_of_neg hdecodes, List.countP_nil]

theorem lacking_cons {o : RunOutput} {s : Snapshot} (later : List RunOutput)
    (ho : (Snapshot.ofOutput o.path o.bytes).value = .ok s) :
    lacking (o :: later) = o.lacksSummary.toNat + lacking later := by
  have hdecodes : o.decodes = true := by rw [RunOutput.decodes, ho]; rfl
  rw [lacking, List.takeWhile_cons_of_pos hdecodes, countP_cons_toNat]
  rfl

namespace BackupRecord

/-- The snapshots of a host that lack a size have a warning each, and an output that does not decode
has an error. -/
theorem snapshots_log (hostname : String) (outputs : List RunOutput) :
    countAt .warn (snapshots hostname outputs).events = lacking outputs ∧
    countAt .error (snapshots hostname outputs).events =
      (snapshots hostname outputs).value.2.isSome.toNat ∧
    (snapshots hostname outputs).value.1.countP Snapshot.unsized = lacking outputs := by
  induction outputs with
  | nil => exact ⟨rfl, rfl, rfl⟩
  | cons o later ih =>
    obtain ⟨hwarnings, herrors, hunsized⟩ := ih
    obtain ⟨howarnings, hoerrors⟩ := o.extracts.log
    cases ho : (Snapshot.ofOutput o.path o.bytes).value with
    | error e =>
      have hlacks := o.extracts.of_error ho
      simp only [snapshots, countAt_bind, countAt_note, countAt_pure, Logged.value_bind,
        Logged.value_pure, howarnings, hoerrors, ho, hlacks, lacking_refused later ho]
      exact ⟨rfl, rfl, rfl⟩
    | ok s =>
      have hsize := o.extracts.unsized_eq ho
      simp only [snapshots, countAt_bind, countAt_pure, Logged.value_bind, Logged.value_pure,
        howarnings, hoerrors, ho, hwarnings, herrors, lacking_cons later ho, countP_cons_toNat,
        hunsized, hsize, RunOutput.lacksSummary]
      refine ⟨rfl, ?_, trivial⟩
      omega

end BackupRecord

/-! ## The repository -/

/-- A retention run leaves neither a warning nor an error. -/
theorem Retention.totals_log (output : List UInt8) :
    countAt .warn (totals output).events = 0 ∧ countAt .error (totals output).events = 0 := by
  unfold totals
  split
  · exact ⟨rfl, rfl⟩
  · exact ⟨rfl, rfl⟩

/-- What an integrity check notes by itself is neither a warning nor an error. -/
theorem Integrity.check_log (output : List UInt8) :
    countAt .warn (check output).events = 0 ∧ countAt .error (check output).events = 0 := by
  unfold check
  split
  · exact ⟨rfl, rfl⟩
  · exact ⟨rfl, rfl⟩

/-! ## Steps -/

namespace BackupRecord

/-- How many snapshots of a record have no size, those of failed hosts included. -/
def unsized (r : BackupRecord) : Nat :=
  (r.hosts.flatMap HostBackup.snapshots).countP Snapshot.unsized

/-- A host is added with the snapshots of its outputs, and nothing is noted but what these leave.
An error is returned if one of the outputs has one. -/
theorem addHost_eq (hostname : String) (outputs : List RunOutput) (seconds : UInt64)
    (r : BackupRecord) : ∃ h result,
      r.addHost hostname outputs seconds =
        ⟨(r.withHost h, result), (snapshots hostname outputs).events⟩ ∧
      h.snapshots = (snapshots hostname outputs).value.1 ∧
      (snapshots hostname outputs).value.2.isSome = !result.isOk := by
  unfold addHost
  rcases snapshots hostname outputs with ⟨⟨found, _ | e⟩, events⟩
  · exact ⟨_, _, congrArg (Logged.mk _) (List.append_nil events), rfl, rfl⟩
  · exact ⟨_, _, congrArg (Logged.mk _) (List.append_nil events), rfl, rfl⟩

/-- The output of a retention run does not touch the hosts. -/
theorem applyRetention_eq (output : List UInt8) (r : BackupRecord) :
    (r.applyRetention output).events = (Retention.totals output).events ∧
      (r.applyRetention output).value.1.hosts = r.hosts := by
  unfold applyRetention
  rcases Retention.totals output with ⟨e | t, events⟩
  · exact ⟨List.append_nil events, rfl⟩
  · exact ⟨List.append_nil events, rfl⟩

theorem applyIntegrity_events (output : List UInt8) (r : BackupRecord) :
    (r.applyIntegrity output).events = (Integrity.check output).events ++
      if (Integrity.check output).value then [] else [.integrityNotConfirmed] := by
  unfold applyIntegrity
  rcases Integrity.check output with ⟨_ | _, events⟩
  · rfl
  · rfl

theorem unsized_withHost (r : BackupRecord) (h : HostBackup) :
    (r.withHost h).unsized = r.unsized + h.snapshots.countP Snapshot.unsized := by
  simp [unsized, withHost, List.flatMap_append, List.countP_append]

end BackupRecord

/-- Some events account for the way from a record to another: a warning for each of the `lacking`
snapshots without a size that were added, and for each of the `unconfirmed` integrity checks, and an
error for each of the `refused` hosts. -/
structure Accounts (before : BackupRecord) (events : List Event) (after : BackupRecord)
    (lacking unconfirmed refused : Nat) : Prop where
  warnings : countAt .warn events = lacking + unconfirmed
  errors : countAt .error events = refused
  unsized : after.unsized = before.unsized + lacking

namespace Accounts

variable {r r' r'' : BackupRecord} {events later : List Event} {l l' u u' f f' : Nat}

theorem refl (r : BackupRecord) : Accounts r [] r 0 0 0 := ⟨rfl, rfl, rfl⟩

/-- Neither a warning nor an error is due where the hosts stay as they are. -/
theorem silent (hwarnings : countAt .warn events = 0) (herrors : countAt .error events = 0)
    (h : r'.hosts = r.hosts) : Accounts r events r' 0 0 0 :=
  ⟨hwarnings, herrors, by rw [BackupRecord.unsized, h]; rfl⟩

theorem trans (h : Accounts r events r' l u f) (h' : Accounts r' later r'' l' u' f') :
    Accounts r (events ++ later) r'' (l + l') (u + u') (f + f') where
  warnings := by
    rw [countAt_append, h.warnings, h'.warnings]
    omega
  errors := by rw [countAt_append, h.errors, h'.errors]
  unsized := by rw [h'.unsized, h.unsized, Nat.add_assoc]

end Accounts

namespace BackupStep

/-- How many outputs that lack a summary a step extracts. -/
def lacking : BackupStep → Nat
  | .addHost _ outputs _ => BackupReport.lacking outputs
  | _ => 0

/-- Whether a step is an integrity check that leaves the integrity as not confirmed. -/
def unconfirmed : BackupStep × BackupRecord × Except Error Unit → Bool
  | (.applyIntegrity _, after, _) => after.repository.integrity == some false
  | _ => false

/-- Whether a step adds a host and returns an error. -/
def refused : BackupStep × BackupRecord × Except Error Unit → Bool
  | (.addHost .., _, result) => !result.isOk
  | _ => false

/-- The events of a step account for what it leaves behind. -/
theorem apply_accounts (s : BackupStep) (r : BackupRecord) :
    Accounts r (s.apply r).events (s.apply r).value.1 s.lacking
      (unconfirmed (s, (s.apply r).value)).toNat (refused (s, (s.apply r).value)).toNat := by
  cases s with
  | addHost hostname outputs seconds =>
    obtain ⟨hwarnings, herrors, hunsized⟩ := BackupRecord.snapshots_log hostname outputs
    obtain ⟨h, result, heq, hfound, hresult⟩ := BackupRecord.addHost_eq hostname outputs seconds r
    simp only [apply, heq]
    refine ⟨hwarnings, herrors.trans (congrArg Bool.toNat hresult), ?_⟩
    rw [BackupRecord.unsized_withHost, hfound, hunsized]
    rfl
  | addFailedHost hostname error => exact ⟨rfl, rfl, BackupRecord.unsized_withHost _ _⟩
  | applyRetention output =>
    obtain ⟨hwarnings, herrors⟩ := Retention.totals_log output
    obtain ⟨hevents, hhosts⟩ := r.applyRetention_eq output
    rw [← hevents] at hwarnings herrors
    exact .silent hwarnings herrors hhosts
  | applyIntegrity output =>
    obtain ⟨hwarnings, herrors⟩ := Integrity.check_log output
    have hevents : ((applyIntegrity output).apply r).events =
        (Integrity.check output).events ++
          if (Integrity.check output).value then [] else [.integrityNotConfirmed] :=
      (List.append_nil _).trans (r.applyIntegrity_events output)
    have hvalue : ((applyIntegrity output).apply r).value =
        ({ r with repository := { r.repository with
            integrity := some (Integrity.check output).value } }, .ok ()) := by
      rw [apply, Logged.value_bind, r.applyIntegrity_value, Logged.value_pure]
    rw [hevents, hvalue]
    cases (Integrity.check output).value with
    | false =>
      have hwarned : Accounts r [.integrityNotConfirmed]
          { r with repository := { r.repository with integrity := some false } } 0 1 0 :=
        ⟨rfl, rfl, rfl⟩
      exact .trans (.silent hwarnings herrors rfl) hwarned
    | true =>
      rw [if_pos rfl, List.append_nil]
      exact .silent hwarnings herrors rfl
  | applySize output =>
    simp only [apply, BackupRecord.applySize]
    cases RepositorySize.text output with
    | error e => exact .refl r
    | ok size => exact ⟨rfl, rfl, rfl⟩

/-- What the steps account for adds up. -/
theorem trace_accounts (steps : List BackupStep) (r : BackupRecord) :
    Accounts r (trace steps r).events (r.afterTrace (trace steps r).value)
      (steps.map lacking).sum ((steps.zip (trace steps r).value).countP unconfirmed)
      ((steps.zip (trace steps r).value).countP refused) := by
  induction steps generalizing r with
  | nil => exact .refl r
  | cons s later ih =>
    have htrace : trace (s :: later) r = ⟨(s.apply r).value ::
        (trace later (s.apply r).value.1).value, (s.apply r).events ++
          ((trace later (s.apply r).value.1).events ++ [])⟩ := rfl
    rw [htrace, List.append_nil]
    dsimp only
    rw [afterTrace_cons, List.map_cons, List.sum_cons, List.zip_cons_cons, countP_cons_toNat,
      countP_cons_toNat]
    exact (s.apply_accounts r).trans (ih (s.apply r).value.1)

/-- The log of a session counts what is missing in the record that it leaves.

There is a warning for each snapshot without a size, and one for each integrity check that was not
confirmed; there is an error for each host that was refused.  The snapshots without a size, those of
failed hosts included, are as many as the outputs that were extracted and lack a summary.  Any
snapshot that comes from a summary has its size, what was uploaded and the time that it took. -/
theorem trace_log (steps : List BackupStep) :
    countAt .warn (trace steps {}).events =
      (BackupRecord.afterTrace {} (trace steps {}).value).unsized +
        (steps.zip (trace steps {}).value).countP unconfirmed ∧
    countAt .error (trace steps {}).events = (steps.zip (trace steps {}).value).countP refused ∧
    (BackupRecord.afterTrace {} (trace steps {}).value).unsized = (steps.map lacking).sum ∧
    ∀ (o : RunOutput) (s : Snapshot), (Snapshot.ofOutput o.path o.bytes).value = .ok s →
      (o.lacksSummary = true ∧ s = { path := o.path }) ∨
        (o.lacksSummary = false ∧ s.Complete ∧
          ∃ m, .ok m ∈ items Message.decode o.bytes ∧ m.isSummary = true ∧
            s = m.toSnapshot o.path) := by
  obtain ⟨hwarnings, herrors, hunsized⟩ := trace_accounts steps {}
  replace hunsized := hunsized.trans (Nat.zero_add _)
  exact ⟨hunsized ▸ hwarnings, herrors, hunsized, fun o s h => o.extracts.of_ok h⟩

end BackupStep

end BackupReport
