import Mathlib.Logic.Relation
import BackupReport.Proofs.Skipping.Tokens

/-!
# Walks over a value

Passing over a value is a walk from state to state, one for each step that goes on.  `Moves` lists
what such a step can be.  What lies outside the frames of a walk does not matter to it
(`walks_within`), so that a value is passed over inside other values just as it is on its own
(`walks_of_skipValue`, `skipValue_of_walks`).
-/

namespace BackupReport.Json.Skip

open Decoder Relation

variable {s s' : State} {c c' c₁ : Cursor} {frames : List Frame}

/-! ## Steps -/

/-- The steps that go on: into a value, out of a frame, into its first entry, or behind a comma into
a later one. -/
inductive Moves : State → Cursor → State → Cursor → Prop
  | value {frames : List Frame} {c : Cursor} {s' : State} {c' : Cursor} :
      enterValue frames c = .ok (s', c') → Moves ⟨.value, frames⟩ c s' c'
  | close {place : Place} {frame : Frame} {frames : List Frame} {c c₁ c' : Cursor} :
      place ≠ .value → gap c = .ok (some frame.closing, c₁) → eat c₁ = .ok ((), c') →
      Moves ⟨place, frame :: frames⟩ c ⟨.after, frames⟩ c'
  | first {frame : Frame} {frames : List Frame} {b : UInt8} {c c₁ : Cursor} {s' : State}
      {c' : Cursor} :
      gap c = .ok (some b, c₁) → b ≠ frame.closing → enterEntry frame frames c₁ = .ok (s', c') →
      Moves ⟨.opened, frame :: frames⟩ c s' c'
  | later {frame : Frame} {frames : List Frame} {c c₁ c₂ : Cursor} {s' : State} {c' : Cursor} :
      gap c = .ok (some 0x2C, c₁) → eat c₁ = .ok ((), c₂) →
      enterEntry frame frames c₂ = .ok (s', c') → Moves ⟨.after, frame :: frames⟩ c s' c'

theorem comma_ne_closing (frame : Frame) : 0x2C ≠ frame.closing := by cases frame <;> decide

/-- A step goes on, or it stops where there is no frame left. -/
theorem step_cases {r : Step State Unit} (h : step s c = .ok (r, c')) :
    (∃ s', r = .more s' ∧ Moves s c s' c') ∨
      r = .done () ∧ s.frames = [] ∧ s.place ≠ .value ∧ c = c' := by
  obtain ⟨place, frames⟩ := s
  cases place with
  | value =>
    obtain ⟨s', henter, rfl⟩ := map_ok h
    exact .inl ⟨s', rfl, .value henter⟩
  | opened =>
    cases frames with
    | nil =>
      obtain ⟨rfl, rfl⟩ := pure_ok h
      exact .inr ⟨rfl, rfl, nofun, rfl⟩
    | cons frame frames =>
      obtain ⟨l, c₁, hg, h⟩ := bind_ok h
      cases l with
      | none => cases h
      | some b =>
        dsimp only at h
        split at h
        · rename_i hclosing
          obtain ⟨_, c₂, he, h⟩ := bind_ok h
          obtain ⟨rfl, rfl⟩ := pure_ok h
          exact .inl ⟨_, rfl, .close nofun (hclosing ▸ hg) he⟩
        · rename_i hclosing
          obtain ⟨s', henter, rfl⟩ := map_ok h
          exact .inl ⟨s', rfl, .first hg hclosing henter⟩
  | after =>
    cases frames with
    | nil =>
      obtain ⟨rfl, rfl⟩ := pure_ok h
      exact .inr ⟨rfl, rfl, nofun, rfl⟩
    | cons frame frames =>
      obtain ⟨l, c₁, hg, h⟩ := bind_ok h
      cases l with
      | none => cases h
      | some b =>
        dsimp only at h
        split at h
        · rename_i hclosing
          obtain ⟨_, c₂, he, h⟩ := bind_ok h
          obtain ⟨rfl, rfl⟩ := pure_ok h
          exact .inl ⟨_, rfl, .close nofun (hclosing ▸ hg) he⟩
        · split at h
          · rename_i hcomma
            obtain ⟨_, c₂, he, h⟩ := bind_ok h
            obtain ⟨s', henter, rfl⟩ := map_ok h
            exact .inl ⟨s', rfl, .later (hcomma ▸ hg) he henter⟩
          · cases h

theorem moves_of_step (h : step s c = .ok (.more s', c')) : Moves s c s' c' := by
  rcases step_cases h with ⟨s₁, heq, hmoves⟩ | ⟨heq, -⟩
  · cases heq
    exact hmoves
  · cases heq

theorem Moves.step_eq (h : Moves s c s' c') : step s c = .ok (.more s', c') := by
  cases h with
  | value h => exact map_of_ok h
  | @close place frame frames _ _ _ hplace hg he =>
    cases place with
    | value => exact absurd rfl hplace
    | opened | after =>
      refine (bind_of_ok hg).trans ?_
      dsimp only
      rw [if_pos rfl, bind_of_ok he]
      rfl
  | first hg hclosing h =>
    refine (bind_of_ok hg).trans ?_
    dsimp only
    rw [if_neg hclosing]
    exact map_of_ok h
  | @later frame _ _ _ _ _ _ hg he h =>
    refine (bind_of_ok hg).trans ?_
    dsimp only
    rw [if_neg (comma_ne_closing frame), if_pos rfl, bind_of_ok he]
    exact map_of_ok h

/-- Where the passing over stops, there is no frame left. -/
theorem step_done (h : step s c = .ok (.done (), c')) :
    s.frames = [] ∧ s.place ≠ .value ∧ c = c' := by
  rcases step_cases h with ⟨s₁, heq, -⟩ | ⟨-, hdone⟩
  · cases heq
  · exact hdone

/-! ## Walks -/

/-- Steps that go on, one after the other. -/
def Walks : State × Cursor → State × Cursor → Prop :=
  ReflTransGen fun p q => Moves p.1 p.2 q.1 q.2

theorem Moves.walks (h : Moves s c s' c') : Walks (s, c) (s', c') := ReflTransGen.single h

theorem Walks.trans {p q r : State × Cursor} (h : Walks p q) (h' : Walks q r) : Walks p r :=
  ReflTransGen.trans h h'

/-- A walk over a value starts with the step into it. -/
theorem Walks.enters {place : Place} (h : Walks (⟨.value, frames⟩, c) (⟨place, frames⟩, c'))
    (hplace : place ≠ .value) :
    ∃ s c₁, enterValue frames c = .ok (s, c₁) ∧ Walks (s, c₁) (⟨place, frames⟩, c') := by
  rcases ReflTransGen.cases_head h with heq | ⟨⟨s, c₁⟩, hmove, hwalk⟩
  · cases heq
    exact absurd rfl hplace
  · cases hmove with
    | value henter => exact ⟨s, c₁, henter, hwalk⟩
    | close hvalue => exact absurd rfl hvalue

/-- To go on from the start of a walk is to go on from its end. -/
theorem Walks.iterate_eq {p q : State × Cursor} (h : Walks p q) :
    iterate step p.1 p.2 = iterate step q.1 q.2 := by
  induction h with
  | refl => rfl
  | tail _ hmove ih => rw [ih, iterate_more progresses_skipStep hmove.step_eq]

/-! ## Frames further out -/

/-- A state inside some more frames. -/
def State.within (s : State) (outer : List Frame) : State := ⟨s.place, s.frames ++ outer⟩

theorem enterValue_within (frames outer : List Frame) :
    enterValue (frames ++ outer) = (·.within outer) <$> enterValue frames := by
  unfold enterValue
  rw [map_bind]
  refine bind_congr fun r => ?_
  cases r with
  | none => rfl
  | some b =>
    dsimp only
    cases Lead.of b with
    | other => rfl
    | _ =>
      simp only [map_bind, map_pure]
      rfl

theorem enterEntry_within (frame : Frame) (frames outer : List Frame) :
    enterEntry frame (frames ++ outer) = (·.within outer) <$> enterEntry frame frames := by
  cases frame with
  | list => exact enterValue_within (.list :: frames) outer
  | object =>
    unfold enterEntry
    rw [map_bind]
    exact bind_congr fun _ => enterValue_within (.object :: frames) outer

/-- A step that goes on does so inside other frames too. -/
theorem Moves.within (outer : List Frame) (h : Moves s c s' c') :
    Moves (s.within outer) c (s'.within outer) c' := by
  have hentry : ∀ {frame frames c}, enterEntry frame frames c = .ok (s', c') →
      enterEntry frame (frames ++ outer) c = .ok (s'.within outer, c') := by
    intro frame frames c h
    rw [enterEntry_within]
    exact map_of_ok h
  cases h with
  | value h => exact .value (by rw [enterValue_within]; exact map_of_ok h)
  | close hplace hg he => exact .close hplace hg he
  | first hg hclosing h => exact .first hg hclosing (hentry h)
  | later hg he h => exact .later hg he (hentry h)

theorem walks_within (outer : List Frame) (h : Walks (s, c) (s', c')) :
    Walks (s.within outer, c) (s'.within outer, c') :=
  ReflTransGen.lift (fun p : State × Cursor => (p.1.within outer, p.2))
    (fun _ _ hmove => hmove.within outer) _ _ h

/-! ## Whole values -/

/-- A place behind an opening byte has a frame that was opened. -/
def State.Framed (s : State) : Prop := s.place = .opened → s.frames ≠ []

theorem framed_enterValue (h : enterValue frames c = .ok (s, c')) : s.Framed := by
  obtain ⟨r, c₁, -, h⟩ := bind_ok h
  cases r with
  | none => cases h
  | some b =>
    dsimp only at h
    cases hl : Lead.of b with
    | other =>
      simp only [hl] at h
      cases h
    | minus | digit =>
      simp only [hl] at h
      obtain ⟨_, c₂, -, h⟩ := bind_ok h
      obtain ⟨rfl, -⟩ := pure_ok h
      exact nofun
    | list | object =>
      simp only [hl] at h
      obtain ⟨_, c₂, -, h⟩ := bind_ok h
      obtain ⟨rfl, -⟩ := pure_ok h
      exact fun _ => List.cons_ne_nil _ _
    | null | yes | no | quote =>
      simp only [hl] at h
      obtain ⟨_, c₂, -, h⟩ := bind_ok h
      obtain ⟨_, c₃, -, h⟩ := bind_ok h
      obtain ⟨rfl, -⟩ := pure_ok h
      exact nofun

theorem framed_enterEntry {frame : Frame} (h : enterEntry frame frames c = .ok (s, c')) :
    s.Framed := by
  cases frame with
  | list => exact framed_enterValue h
  | object =>
    obtain ⟨_, c₁, -, h⟩ := bind_ok h
    exact framed_enterValue h

theorem Moves.framed (h : Moves s c s' c') : s'.Framed := by
  cases h with
  | value h => exact framed_enterValue h
  | close => exact nofun
  | first _ _ h | later _ _ h => exact framed_enterEntry h

theorem walks_of_iterate (hs : s.Framed) (h : iterate step s c = .ok ((), c')) :
    Walks (s, c) (⟨.after, []⟩, c') := by
  induction s, c using iterate_induction progresses_skipStep with
  | _ s c ih =>
    rcases iterate_ok progresses_skipStep h with hdone | ⟨s₁, c₁, hmore, h⟩
    · obtain ⟨hframes, hplace, rfl⟩ := step_done hdone
      obtain ⟨place, frames⟩ := s
      cases hframes
      cases place with
      | value => exact absurd rfl hplace
      | opened =>
        -- behind an opening byte there is the frame that it has opened
        exact absurd rfl (hs rfl)
      | after => exact .refl
    · have hmove := moves_of_step hmore
      exact hmove.walks.trans (ih s₁ c₁ hmore hmove.framed h)

theorem consumes_skipValue : Consumes skipValue := by
  intro c u c' h
  rcases iterate_ok progresses_skipStep h with hdone | ⟨s, c₁, hmore, h⟩
  · exact absurd rfl (step_done hdone).2.1
  · exact Nat.lt_of_le_of_lt (Built.iterate s progresses_skipStep built_skipStep |>.length_le h)
      (progresses_skipStep _ c s c₁ hmore)

/-- A value that is passed over on its own is passed over inside any frames. -/
theorem walks_of_skipValue (frames : List Frame) (h : skipValue c = .ok ((), c')) :
    Walks (⟨.value, frames⟩, c) (⟨.after, frames⟩, c') :=
  walks_within frames (walks_of_iterate (s := ⟨.value, []⟩) nofun h)

theorem skipValue_of_walks (h : Walks (⟨.value, []⟩, c) (⟨.after, []⟩, c')) :
    skipValue c = .ok ((), c') := by
  unfold skipValue
  rw [h.iterate_eq]
  exact iterate_done progresses_skipStep rfl

end BackupReport.Json.Skip
