import BackupReport.Json.Messages

/-!
# What decoders are built from

Every decoder of this library is put together from the same few steps.  `Built` says so, one
constructor for each step, so that a law of all decoders is one induction with a case for each step.
The first of these laws is `Built.forward`: a decoder only moves forward.

The steps that are not `peek`, `next` or a refusal are those that look at a source in a way of their
own: a run of bytes is passed together with a look at what ends it, a string is judged behind its
closing quote, and two refusals first look past the gaps before them.
-/

namespace BackupReport.Json

/-! ## Movement -/

namespace Cursor

/-- To come from one cursor to another by passing a run of bytes. -/
def Passes (c : Cursor) (run : List UInt8) (c' : Cursor) : Prop :=
  c.rest = run ++ c'.rest ∧ c'.position = run.foldl Position.advance c.position ∧
    c'.ending = c.ending ∧ c'.buffered = c.buffered

theorem Passes.refl (c : Cursor) : c.Passes [] c := ⟨rfl, rfl, rfl, rfl⟩

theorem Passes.trans {c c' c'' : Cursor} {run run' : List UInt8} (h : c.Passes run c')
    (h' : c'.Passes run' c'') : c.Passes (run ++ run') c'' := by
  obtain ⟨hr, hp, he, hb⟩ := h
  obtain ⟨hr', hp', he', hb'⟩ := h'
  refine ⟨?_, ?_, he'.trans he, hb'.trans hb⟩
  · rw [hr, hr', List.append_assoc]
  · rw [hp', hp, List.foldl_append]

theorem passes_pass {c : Cursor} {run rest : List UInt8} (h : c.rest = run ++ rest) :
    c.Passes run (c.pass run rest) := ⟨h, rfl, rfl, rfl⟩

theorem passes_look (c : Cursor) (b : UInt8) : c.Passes [] (c.look b) := by
  unfold look
  split <;> exact ⟨rfl, rfl, rfl, rfl⟩

@[simp] theorem look_rest (c : Cursor) (b : UInt8) : (c.look b).rest = c.rest := by
  unfold look; split <;> rfl

@[simp] theorem look_ending (c : Cursor) (b : UInt8) : (c.look b).ending = c.ending := by
  unfold look; split <;> rfl

/-- What was only looked at is handed out once, when it is passed. -/
@[simp] theorem look_pass (c : Cursor) (b : UInt8) (run rest : List UInt8) :
    (c.look b).pass run rest = c.pass run rest := by
  unfold look; split <;> rfl

theorem Passes.length_le {c c' : Cursor} {run : List UInt8} (h : c.Passes run c') :
    c'.rest.length ≤ c.rest.length := by
  rw [h.1, List.length_append]
  omega

end Cursor

namespace Decoder

variable {α β σ : Type}

/-! ## Sequences of decoders -/

theorem bind_of_ok {d : Decoder α} {k : α → Decoder β} {c c' : Cursor} {a : α}
    (h : d c = .ok (a, c')) : (d >>= k) c = k a c' := by
  simp only [bind, StateT.bind, h, Except.bind]

theorem bind_of_error {d : Decoder α} {k : α → Decoder β} {c : Cursor} {f : Fault}
    (h : d c = .error f) : (d >>= k) c = .error f := by
  simp only [bind, StateT.bind, h, Except.bind]

theorem bind_ok {d : Decoder α} {k : α → Decoder β} {c c'' : Cursor} {b : β}
    (h : (d >>= k) c = .ok (b, c'')) : ∃ a c', d c = .ok (a, c') ∧ k a c' = .ok (b, c'') := by
  cases hd : d c with
  | error f => rw [bind_of_error hd] at h; cases h
  | ok r =>
    obtain ⟨a, c'⟩ := r
    exact ⟨a, c', rfl, by rwa [bind_of_ok hd] at h⟩

theorem map_ok {d : Decoder α} {g : α → β} {c c' : Cursor} {b : β}
    (h : (g <$> d) c = .ok (b, c')) : ∃ a, d c = .ok (a, c') ∧ g a = b := by
  rw [← bind_pure_comp] at h
  obtain ⟨a, c₁, hd, hp⟩ := bind_ok h
  cases hp
  exact ⟨a, hd, rfl⟩

theorem map_of_ok {d : Decoder α} {g : α → β} {c c' : Cursor} {a : α} (h : d c = .ok (a, c')) :
    (g <$> d) c = .ok (g a, c') := by
  rw [← bind_pure_comp]
  exact bind_of_ok h

theorem pure_ok {a b : α} {c c' : Cursor} (h : (pure a : Decoder α) c = .ok (b, c')) :
    a = b ∧ c = c' := by
  cases h
  exact ⟨rfl, rfl⟩

/-! ## Refusals -/

/-- No run succeeds. -/
def Refuses (d : Decoder α) : Prop := ∀ c a c', d c ≠ .ok (a, c')

theorem refuses_refuseHere (cause : Cause) : Refuses (refuseHere cause : Decoder α) := by
  intro c a c' h; cases h

theorem refuses_refuseNext (cause : Cause) : Refuses (refuseNext cause : Decoder α) := by
  intro c a c' h; cases h

theorem refuses_refuseBefore (cause : Cause) (n : Nat) :
    Refuses (refuseBefore cause n : Decoder α) := by
  intro c a c' h; cases h

/-- Whatever comes first, a refusal at the end is a refusal. -/
theorem Refuses.after {d : Decoder α} {k : α → Decoder β} (hk : ∀ a, Refuses (k a)) :
    Refuses (d >>= k) := by
  intro c b c'' h
  obtain ⟨a, c', -, h⟩ := bind_ok h
  exact hk a c' b c'' h

/-! ## The steps -/

/-- Takes the longest run of bytes that satisfy `p` and looks at the byte that ends it. -/
def passing (p : UInt8 → Bool) : Decoder (List UInt8 × Option UInt8) := do
  let run ← span p
  let following ← peek
  pure (run, following)

/-- Refuses what follows the last entry of a list and the comma behind it. -/
def refuseSurplus : Decoder α := do
  let _ ← span isGap
  if (← glance) = some 0x5D then refuseNext .trailingComma
  else refuseNext .trailingCharacters

theorem refuses_refuseSurplus : Refuses (refuseSurplus : Decoder α) := by
  refine .after fun _ => .after fun b => ?_
  split
  · exact refuses_refuseNext _
  · exact refuses_refuseNext _

theorem refuses_refuseRepeated (name : String) : Refuses (refuseRepeated name : Decoder α) := by
  refine .after fun _ => .after fun b => ?_
  dsimp only
  split
  · exact .after fun _ => refuses_refuseHere _
  · exact refuses_refuseHere _

/-- A decoder that is put together from the steps of this library. -/
inductive Built : {α : Type} → Decoder α → Prop
  | pure {α : Type} (a : α) : Built (pure a : Decoder α)
  | bind {α β : Type} {d : Decoder α} {k : α → Decoder β} :
      Built d → (∀ a, Built (k a)) → Built (d >>= k)
  | peek : Built peek
  | next : Built next
  | passing (p : UInt8 → Bool) : Built (passing p)
  | refuseHere {α : Type} (cause : Cause) : Built (refuseHere cause : Decoder α)
  | refuseNext {α : Type} (cause : Cause) : Built (refuseNext cause : Decoder α)
  | refuseSurplus {α : Type} : Built (refuseSurplus : Decoder α)
  | refuseRepeated {α : Type} (name : String) : Built (refuseRepeated name : Decoder α)
  | string : Built Text.bytes → Built Text.decode
  | iterate {σ α : Type} {step : σ → Decoder (Step σ α)} (s : σ) :
      Progresses step → (∀ s, Built (step s)) → Built (iterate step s)

/-! ## Runs of the steps -/

theorem peek_ok {c c' : Cursor} {r : Option UInt8} (h : peek c = .ok (r, c')) :
    (∃ b rest, c.rest = b :: rest ∧ r = some b ∧ c' = c.look b) ∨
      (c.rest = [] ∧ c.ending = .closed ∧ r = none ∧ c' = c) := by
  unfold peek at h
  cases hr : c.rest with
  | cons b rest =>
    rw [hr] at h
    cases h
    exact .inl ⟨b, rest, rfl, rfl, rfl⟩
  | nil =>
    cases he : c.ending with
    | closed =>
      rw [hr, he] at h
      cases h
      exact .inr ⟨rfl, rfl, rfl, rfl⟩
    | failing reason =>
      rw [hr, he] at h
      cases h

theorem next_ok {c c' : Cursor} {r : Option UInt8} (h : next c = .ok (r, c')) :
    (∃ b rest, c.rest = b :: rest ∧ r = some b ∧ c' = c.pass [b] rest) ∨
      (c.rest = [] ∧ c.ending = .closed ∧ r = none ∧ c' = c) := by
  unfold next at h
  cases hr : c.rest with
  | cons b rest =>
    rw [hr] at h
    cases h
    exact .inl ⟨b, rest, rfl, rfl, rfl⟩
  | nil =>
    cases he : c.ending with
    | closed =>
      rw [hr, he] at h
      cases h
      exact .inr ⟨rfl, rfl, rfl, rfl⟩
    | failing reason =>
      rw [hr, he] at h
      cases h

/-- A run of bytes ends where the bytes end or at a byte that does not satisfy `p`. -/
theorem passing_ok {p : UInt8 → Bool} {c c' : Cursor} {run : List UInt8} {r : Option UInt8}
    (h : passing p c = .ok ((run, r), c')) :
    ∃ c₁, c₁ = c.pass (c.rest.takeWhile p) (c.rest.dropWhile p) ∧ run = c.rest.takeWhile p ∧
      peek c₁ = .ok (r, c') := by
  obtain ⟨run', c₁, hs, h⟩ := bind_ok h
  obtain ⟨r', c₂, hp, h⟩ := bind_ok h
  obtain ⟨heq, rfl⟩ := pure_ok h
  cases heq
  cases hs
  exact ⟨_, rfl, rfl, hp⟩

theorem peek_passes {c c' : Cursor} {r : Option UInt8} (h : peek c = .ok (r, c')) :
    c.Passes [] c' := by
  rcases peek_ok h with ⟨b, rest, -, -, rfl⟩ | ⟨-, -, -, rfl⟩
  · exact c.passes_look b
  · exact .refl c'

/-- A gap is passed like any other run, and only the byte behind it is kept. -/
theorem gap_eq : gap = Prod.snd <$> passing isGap := by
  simp only [gap, passing, map_bind, map_pure, bind_pure]

/-- A glance behind a gap finds the first byte that is no gap, or nothing. -/
theorem glance_behind_gap (c : Cursor) : ∃ c₁ c₂,
    span isGap c = .ok (c.rest.takeWhile isGap, c₁) ∧
      glance c₁ = .ok ((c.rest.dropWhile isGap).head?, c₂) ∧ c₂.rest = c.rest.dropWhile isGap := by
  cases hd : c.rest.dropWhile isGap with
  | nil =>
    refine ⟨c.pass (c.rest.takeWhile isGap) [], _, ?_, rfl, rfl⟩
    simp only [span, hd]
  | cons b rest =>
    refine ⟨c.pass (c.rest.takeWhile isGap) (b :: rest), _, ?_, rfl, by simp [Cursor.pass]⟩
    simp only [span, hd]

theorem refuseSurplus_eq (c : Cursor) : ∃ p, (refuseSurplus : Decoder α) c =
    .error (.refused (if (c.rest.dropWhile isGap).head? = some 0x5D then .trailingComma
      else .trailingCharacters) p) := by
  obtain ⟨c₁, c₂, hs, hg, -⟩ := glance_behind_gap c
  simp only [refuseSurplus]
  rw [bind_of_ok hs, bind_of_ok hg]
  split <;> exact ⟨_, rfl⟩

theorem refuseRepeated_eq (name : String) (c : Cursor) : ∃ p,
    (refuseRepeated name : Decoder α) c = .error (.refused (.repeatedField name) p) := by
  obtain ⟨c₁, c₂, hs, hg, hr⟩ := glance_behind_gap c
  simp only [refuseRepeated]
  rw [bind_of_ok hs, bind_of_ok hg]
  split
  · rename_i hb
    obtain ⟨rest, hrest⟩ := List.head?_eq_some_iff.1 hb
    rw [hrest] at hr
    have heat : eat c₂ = .ok ((), c₂.pass [0x7D] rest) := by
      simp only [eat, next, hr, bind, StateT.bind, Except.bind]
      rfl
    rw [bind_of_ok heat]
    exact ⟨_, rfl⟩
  · exact ⟨_, rfl⟩

/-- A string that is read leaves the cursor behind its bytes. -/
theorem string_ok {c c' : Cursor} {s : String} (h : Text.decode c = .ok (s, c')) :
    ∃ found cs, Text.bytes c = .ok (found, c') ∧ Utf8.decode? found = some cs ∧
      s = String.ofList cs := by
  obtain ⟨found, c₁, hf, h⟩ := bind_ok h
  cases hcs : Utf8.decode? found with
  | none =>
    simp only [hcs] at h
    cases h
  | some cs =>
    simp only [hcs] at h
    obtain ⟨rfl, rfl⟩ := pure_ok h
    exact ⟨found, cs, hf, hcs, rfl⟩

/-- To repeat a step from a state is to do it once and to go on from where it stopped. -/
theorem iterate_ok {step : σ → Decoder (Step σ α)} (hstep : Progresses step) {s : σ}
    {c c' : Cursor} {a : α} (h : iterate step s c = .ok (a, c')) :
    step s c = .ok (.done a, c') ∨
      ∃ s' c₁, step s c = .ok (.more s', c₁) ∧ iterate step s' c₁ = .ok (a, c') := by
  rw [iterate_eq hstep] at h
  obtain ⟨r, c₁, hs, h⟩ := bind_ok h
  cases r with
  | more s' => exact .inr ⟨s', c₁, hs, h⟩
  | done a' =>
    cases h
    exact .inl hs

/-- To repeat a step that goes on is to repeat it from where it went. -/
theorem iterate_more {step : σ → Decoder (Step σ α)} (hstep : Progresses step) {s s' : σ}
    {c c' : Cursor} (h : step s c = .ok (.more s', c')) :
    iterate step s c = iterate step s' c' := by
  rw [iterate_eq hstep]
  exact bind_of_ok h

/-- To repeat a step that stops is to do it once. -/
theorem iterate_done {step : σ → Decoder (Step σ α)} (hstep : Progresses step) {s : σ}
    {c c' : Cursor} {a : α} (h : step s c = .ok (.done a, c')) :
    iterate step s c = .ok (a, c') := by
  rw [iterate_eq hstep]
  exact bind_of_ok h

/-- A fact about repeating a step may be assumed of wherever the step goes on. -/
theorem iterate_induction {step : σ → Decoder (Step σ α)} (hstep : Progresses step)
    {P : σ → Cursor → Prop}
    (h : ∀ s c, (∀ s' c', step s c = .ok (.more s', c') → P s' c') → P s c) (s : σ) (c : Cursor) :
    P s c := by
  induction hn : c.rest.length using Nat.strongRecOn generalizing s c with
  | ind n ih =>
    refine h s c fun s' c' hmore => ih c'.rest.length ?_ s' c' rfl
    rw [← hn]
    exact hstep s c s' c' hmore

/-! ## Decoders move forward -/

/-- Every success passes a run of bytes and leaves the rest. -/
def Forward (d : Decoder α) : Prop :=
  ∀ c a c', d c = .ok (a, c') → ∃ run, c.Passes run c'

theorem Refuses.forward {d : Decoder α} (h : Refuses d) : Forward d :=
  fun c a c' hd => absurd hd (h c a c')

theorem forward_pure (a : α) : Forward (pure a) := by
  intro c a' c' h
  obtain ⟨-, rfl⟩ := pure_ok h
  exact ⟨[], .refl c⟩

/-- Every decoder moves forward. -/
theorem Built.forward {d : Decoder α} (hd : Built d) : Forward d := by
  induction hd with
  | pure a => exact forward_pure a
  | bind _ _ ihd ihk =>
    intro c b c'' h
    obtain ⟨a, c', hd, hk⟩ := bind_ok h
    obtain ⟨run, hrun⟩ := ihd c a c' hd
    obtain ⟨run', hrun'⟩ := ihk a c' b c'' hk
    exact ⟨run ++ run', hrun.trans hrun'⟩
  | peek =>
    intro c r c' h
    exact ⟨[], peek_passes h⟩
  | next =>
    intro c r c' h
    rcases next_ok h with ⟨b, rest, hr, -, rfl⟩ | ⟨-, -, -, rfl⟩
    · exact ⟨[b], Cursor.passes_pass hr⟩
    · exact ⟨[], .refl c'⟩
  | passing p =>
    rintro c ⟨run, r⟩ c' h
    obtain ⟨c₁, rfl, -, hp⟩ := passing_ok h
    exact ⟨_, (Cursor.passes_pass List.takeWhile_append_dropWhile.symm).trans (peek_passes hp)⟩
  | refuseHere cause => exact (refuses_refuseHere cause).forward
  | refuseNext cause => exact (refuses_refuseNext cause).forward
  | refuseSurplus => exact refuses_refuseSurplus.forward
  | refuseRepeated name => exact (refuses_refuseRepeated name).forward
  | string _ ih =>
    intro c s c' h
    obtain ⟨found, -, hf, -, -⟩ := string_ok h
    exact ih c found c' hf
  | @iterate σ α step s hstep _ ih =>
    intro c a c'
    induction s, c using iterate_induction hstep with
    | _ s c ihs =>
      intro h
      rcases iterate_ok hstep h with hdone | ⟨s', c₁, hmore, h⟩
      · exact ih s c _ c' hdone
      · obtain ⟨run, hrun⟩ := ih s c _ c₁ hmore
        obtain ⟨run', hrun'⟩ := ihs s' c₁ hmore h
        exact ⟨run ++ run', hrun.trans hrun'⟩

theorem Built.passes {d : Decoder α} (hd : Built d) {c c' : Cursor} {a : α}
    (h : d c = .ok (a, c')) : ∃ run, c.Passes run c' := hd.forward c a c' h

/-- A decoder leaves no more bytes than it finds. -/
theorem Built.length_le {d : Decoder α} (hd : Built d) {c c' : Cursor} {a : α}
    (h : d c = .ok (a, c')) : c'.rest.length ≤ c.rest.length := by
  obtain ⟨run, hrun⟩ := hd.passes h
  exact hrun.length_le

/-- A decoder leaves what lies behind the bytes. -/
theorem Built.ending_eq {d : Decoder α} (hd : Built d) {c c' : Cursor} {a : α}
    (h : d c = .ok (a, c')) : c'.ending = c.ending := by
  obtain ⟨run, hrun⟩ := hd.passes h
  exact hrun.2.2.1

end Decoder

end BackupReport.Json
