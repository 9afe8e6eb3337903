import BackupReport.Proofs.Decoder.Built

/-!
# Two runs of one decoder

A law about a decoder at two cursors (further on in a text, before more bytes, before a source that
fails) compares two runs.  A `Simulation` says how cursors and faults are to be compared and that
each step keeps to it; then every decoder that is built from the steps keeps to it
(`Simulation.holds`), whatever it decodes.

A comparison may come to an end: a cursor may be *spent*, and a fault *void*, after which nothing is
said of the second run.
-/

namespace BackupReport.Json.Decoder

variable {α β σ : Type}

/-! ## Comparisons -/

/-- How two cursors and two faults are to be compared, and where the comparison ends. -/
structure Comparison where
  near : Cursor → Cursor → Prop
  alike : Fault → Fault → Prop
  spent : Cursor → Prop
  void : Fault → Prop

namespace Comparison

variable (S : Comparison)

/-- Two results agree: equal values at cursors that are near each other, or faults alike. -/
def Agrees : Except Fault (α × Cursor) → Except Fault (α × Cursor) → Prop
  | .ok (a, c), y => S.spent c ∨ ∃ c', y = .ok (a, c') ∧ S.near c c'
  | .error f, y => S.void f ∨ ∃ f', y = .error f' ∧ S.alike f f'

/-- A decoder runs alike at cursors that are near each other. -/
def Holds (d : Decoder α) : Prop := ∀ c c', S.near c c' → S.Agrees (d c) (d c')

variable {S}

/-- Where a run of bytes ends alike, so does the look at what ends it. -/
theorem holds_passing {p : UInt8 → Bool} (hpeek : S.Holds peek)
    (hspan : ∀ c c', S.near c c' → ∃ run c₁ c₁', span p c = .ok (run, c₁) ∧
      span p c' = .ok (run, c₁') ∧ S.near c₁ c₁') : S.Holds (passing p) := by
  intro c c' hnear
  obtain ⟨run, c₁, c₁', hs, hs', hnear₁⟩ := hspan c c' hnear
  have hagrees := hpeek c₁ c₁' hnear₁
  simp only [passing]
  rw [bind_of_ok hs, bind_of_ok hs']
  cases hp : peek c₁ with
  | error f =>
    rw [hp] at hagrees
    rw [bind_of_error hp]
    rcases hagrees with hvoid | ⟨f', hf', halike⟩
    · exact .inl hvoid
    · exact .inr ⟨f', bind_of_error hf', halike⟩
  | ok r =>
    rw [hp] at hagrees
    rw [bind_of_ok hp]
    rcases hagrees with hspent | ⟨c₂', hc₂', hnear₂⟩
    · exact .inl hspent
    · rw [bind_of_ok hc₂']
      exact .inr ⟨c₂', rfl, hnear₂⟩

end Comparison

/-- A comparison that every step keeps to. -/
structure Simulation extends Comparison where
  spent_passes : ∀ {c c' : Cursor} {run : List UInt8}, spent c → c.Passes run c' → spent c'
  void_of_spent : ∀ {c : Cursor}, spent c → ∀ f, void f
  peek : toComparison.Holds peek
  next : toComparison.Holds next
  passing : ∀ p, toComparison.Holds (passing p)
  refuseHere : ∀ {α : Type} (cause : Cause), toComparison.Holds (refuseHere cause : Decoder α)
  refuseNext : ∀ {α : Type} (cause : Cause), toComparison.Holds (refuseNext cause : Decoder α)
  refuseSurplus : ∀ {α : Type}, toComparison.Holds (refuseSurplus : Decoder α)
  refuseRepeated : ∀ {α : Type} (name : String),
    toComparison.Holds (refuseRepeated name : Decoder α)
  notUtf8 : ∀ {c₀ c c' : Cursor} {found : List UInt8}, Text.bytes c₀ = .ok (found, c) →
    near c c' → ∀ n ≤ found.length,
      toComparison.Agrees (α := String) (refuseBefore .invalidCodePoint n c)
        (refuseBefore .invalidCodePoint n c')

namespace Simulation

variable (S : Simulation)

/-! ## Sequences and repetition -/

/-- Whatever follows a spent cursor agrees with anything. -/
theorem agrees_of_spent {d : Decoder α} (hd : Forward d) {c : Cursor} (hc : S.spent c)
    (y : Except Fault (α × Cursor)) : S.Agrees (d c) y := by
  cases h : d c with
  | error f => exact .inl (S.void_of_spent hc f)
  | ok r =>
    obtain ⟨a, c'⟩ := r
    obtain ⟨run, hrun⟩ := hd c a c' h
    exact .inl (S.spent_passes hc hrun)

theorem agrees_bind {d : Decoder α} {k : α → Decoder β} {c c' : Cursor}
    (hd : S.Agrees (d c) (d c')) (hf : ∀ a, Forward (k a))
    (hk : ∀ a c₁ c₁', d c = .ok (a, c₁) → S.near c₁ c₁' → S.Agrees (k a c₁) (k a c₁')) :
    S.Agrees ((d >>= k) c) ((d >>= k) c') := by
  cases h : d c with
  | error f =>
    rw [h] at hd
    rw [bind_of_error h]
    rcases hd with hvoid | ⟨f', hf', halike⟩
    · exact .inl hvoid
    · exact .inr ⟨f', bind_of_error hf', halike⟩
  | ok r =>
    obtain ⟨a, c₁⟩ := r
    rw [h] at hd
    rw [bind_of_ok h]
    rcases hd with hspent | ⟨c₁', hc₁', hnear⟩
    · exact S.agrees_of_spent (hf a) hspent _
    · rw [bind_of_ok hc₁']
      exact hk a c₁ c₁' h hnear

theorem holds_iterate {step : σ → Decoder (Step σ α)} (hstep : Progresses step)
    (hb : ∀ s, Built (step s)) (ih : ∀ s, S.Holds (step s)) (s : σ) :
    S.Holds (iterate step s) := by
  intro c
  induction s, c using iterate_induction hstep with
  | _ s c ihs =>
    intro c' hnear
    rw [iterate_eq hstep]
    refine S.agrees_bind (ih s c c' hnear) (fun r => ?_) fun r c₁ c₁' hr hnear₁ => ?_
    · cases r with
      | more s' => exact (Built.iterate s' hstep hb).forward
      | done a => exact forward_pure a
    · cases r with
      | more s' => exact ihs s' c₁ hr c₁' hnear₁
      | done a => exact .inr ⟨c₁', rfl, hnear₁⟩

theorem holds_string (ih : S.Holds Text.bytes) :
    S.Holds Text.decode := by
  intro c c' hnear
  refine S.agrees_bind (ih c c' hnear) (fun found => ?_) fun found c₁ c₁' hfound hnear₁ => ?_
  · cases Utf8.decode? found with
    | none => exact (refuses_refuseBefore _ _).forward
    | some cs => exact forward_pure _
  · cases Utf8.decode? found with
    | none => exact S.notUtf8 hfound hnear₁ _ (Nat.sub_le _ _)
    | some cs => exact .inr ⟨c₁', rfl, hnear₁⟩

/-- What each step keeps to, every decoder that is built from the steps keeps to. -/
theorem holds {d : Decoder α} (hd : Built d) : S.Holds d := by
  induction hd with
  | pure a => exact fun c c' hnear => .inr ⟨c', rfl, hnear⟩
  | bind _ hb ihd ihk =>
    exact fun c c' hnear => S.agrees_bind (ihd c c' hnear) (fun a => (hb a).forward)
      fun a c₁ c₁' _ hnear₁ => ihk a c₁ c₁' hnear₁
  | peek => exact S.peek
  | next => exact S.next
  | passing p => exact S.passing p
  | refuseHere cause => exact S.refuseHere cause
  | refuseNext cause => exact S.refuseNext cause
  | refuseSurplus => exact S.refuseSurplus
  | refuseRepeated name => exact S.refuseRepeated name
  | string _ ih => exact S.holds_string ih
  | iterate s hstep hb ih => exact S.holds_iterate hstep hb ih s

end Simulation

end BackupReport.Json.Decoder
