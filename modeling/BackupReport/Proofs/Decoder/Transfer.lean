import BackupReport.Proofs.Decoder.Simulation

/-!
# The same text anywhere

What a decoder makes of a text does not depend on where the text stands, nor on how it is read:
from equal bytes before equal endings it reads the same value and leaves the same bytes
(`Built.transfer_ok`), or it refuses them for the same cause.  A source is said to have failed only
if it does fail, and for its own reason (`Built.fault_cases`).
-/

namespace BackupReport.Json

/-- The faults of two runs over the same bytes before the same ending. -/
def Fault.SameUnder (e : Ending) : Fault → Fault → Prop
  | .refused cause _, .refused cause' _ => cause = cause'
  | .sourceFailed reason, .sourceFailed reason' => reason = reason' ∧ e = .failing reason
  | _, _ => False

namespace Decoder

variable {α : Type}

section Transfer

variable (e : Ending)

/-- Two runs over the same bytes before the same ending, wherever they stand. -/
def transferOf : Comparison where
  near c c' := c.rest = c'.rest ∧ c.ending = e ∧ c'.ending = e
  alike := Fault.SameUnder e
  spent _ := False
  void _ := False

variable {e}

theorem peek_transfer : (transferOf e).Holds peek := by
  rintro c c' ⟨hr, he, he'⟩
  unfold peek
  rw [← hr, he, he']
  cases hrest : c.rest with
  | cons b rest =>
    refine .inr ⟨_, rfl, ?_⟩
    simp [transferOf, hr, he, he']
  | nil =>
    cases he₀ : e with
    | closed => exact .inr ⟨_, rfl, hr, he.trans he₀, he'.trans he₀⟩
    | failing reason => exact .inr ⟨_, rfl, rfl, rfl⟩

theorem next_transfer : (transferOf e).Holds next := by
  rintro c c' ⟨hr, he, he'⟩
  unfold next
  rw [← hr, he, he']
  cases hrest : c.rest with
  | cons b rest => exact .inr ⟨_, rfl, rfl, he, he'⟩
  | nil =>
    cases he₀ : e with
    | closed => exact .inr ⟨_, rfl, hr, he.trans he₀, he'.trans he₀⟩
    | failing reason => exact .inr ⟨_, rfl, rfl, rfl⟩

theorem passing_transfer (p : UInt8 → Bool) : (transferOf e).Holds (passing p) := by
  refine Comparison.holds_passing peek_transfer ?_
  rintro c c' ⟨hr, he, he'⟩
  refine ⟨c.rest.takeWhile p, c.pass (c.rest.takeWhile p) (c.rest.dropWhile p),
    c'.pass (c.rest.takeWhile p) (c.rest.dropWhile p), rfl, ?_, rfl, he, he'⟩
  rw [hr]
  rfl

theorem refuseSurplus_transfer : (transferOf e).Holds (refuseSurplus : Decoder α) := by
  rintro c c' ⟨hr, -, -⟩
  obtain ⟨p, hp⟩ := refuseSurplus_eq (α := α) c
  obtain ⟨p', hp'⟩ := refuseSurplus_eq (α := α) c'
  rw [hp]
  exact .inr ⟨_, hp', by rw [hr]; rfl⟩

theorem refuseRepeated_transfer (name : String) :
    (transferOf e).Holds (refuseRepeated name : Decoder α) := by
  rintro c c' -
  obtain ⟨p, hp⟩ := refuseRepeated_eq (α := α) name c
  obtain ⟨p', hp'⟩ := refuseRepeated_eq (α := α) name c'
  rw [hp]
  exact .inr ⟨_, hp', rfl⟩

variable (e)

/-- The same bytes at two places, as a simulation. -/
def transfer : Simulation where
  toComparison := transferOf e
  spent_passes h _ := h.elim
  void_of_spent h _ := h.elim
  peek := peek_transfer
  next := next_transfer
  passing := passing_transfer
  refuseHere _ _ _ _ := .inr ⟨_, rfl, rfl⟩
  refuseNext _ _ _ _ := .inr ⟨_, rfl, rfl⟩
  refuseSurplus := refuseSurplus_transfer
  refuseRepeated := refuseRepeated_transfer
  notUtf8 _ _ _ _ := .inr ⟨_, rfl, rfl⟩

end Transfer

/-! ## The laws -/

/-- A value that is read at one place is read at every place where the same bytes stand. -/
theorem Built.transfer_ok {d : Decoder α} (hd : Built d) {c₀ c c' : Cursor} {a : α}
    (h : d c₀ = .ok (a, c')) (hr : c.rest = c₀.rest) (he : c.ending = c₀.ending) :
    ∃ c₁, d c = .ok (a, c₁) ∧ c₁.rest = c'.rest := by
  have hagrees := (transfer c₀.ending).holds hd c₀ c ⟨hr.symm, rfl, he⟩
  rw [h] at hagrees
  rcases hagrees with hspent | ⟨c₁, hc₁, hrest, -, -⟩
  · exact hspent.elim
  · exact ⟨c₁, hc₁, hrest.symm⟩

/-- A fault is a refusal, or the failure that the source is said to end with. -/
theorem Built.fault_cases {d : Decoder α} (hd : Built d) {c : Cursor} {f : Fault}
    (h : d c = .error f) : (∃ cause p, f = .refused cause p) ∨
      ∃ reason, f = .sourceFailed reason ∧ c.ending = .failing reason := by
  cases f with
  | refused cause p => exact .inl ⟨cause, p, rfl⟩
  | sourceFailed reason =>
    have hagrees := (transfer c.ending).holds hd c c ⟨rfl, rfl, rfl⟩
    rw [h] at hagrees
    rcases hagrees with hvoid | ⟨f', hf', hsame⟩
    · exact hvoid.elim
    · cases hf'
      exact .inr ⟨reason, rfl, hsame.2⟩

end Decoder

end BackupReport.Json
