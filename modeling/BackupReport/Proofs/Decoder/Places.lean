import BackupReport.Proofs.Decoder.Columns
import BackupReport.Proofs.Decoder.Simulation

/-!
# The same text behind other bytes

Where a text stands behind other bytes, the places in its faults are moved by just these bytes
(`Built.behind_error`): as many lines further down as they hold newlines, and in the first line as
many bytes to the right as follow the last of them.

The one step for which this is not plain is the refusal of a string that is not UTF-8, whose place
is counted back from behind the closing quote; by `bytes_column` this never leads out of the line.
-/

namespace BackupReport.Json

/-! ## Places behind a text -/

/-- How many bytes of a text stand behind its last newline, or in it if it has none. -/
def lastLine (bytes : List UInt8) : Nat := (bytes.reverse.takeWhile (· != 0x0A)).length

/-- The place that another place comes to be if a text is put before everything. -/
def Position.behind (bytes : List UInt8) (p : Position) : Position :=
  ⟨p.line + bytes.count 0x0A, if p.line = 1 then p.column + lastLine bytes else p.column⟩

namespace Position

/-- What is passed from the start of a text is the text that comes before. -/
theorem foldl_advance_start (bytes : List UInt8) :
    bytes.foldl advance start = start.behind bytes := by
  -- the induction is on the reversed text, whose first byte is passed last
  obtain ⟨reversed, rfl⟩ : ∃ reversed, bytes = List.reverse reversed := ⟨bytes.reverse, by simp⟩
  induction reversed with
  | nil => rfl
  | cons b reversed ih =>
    rw [List.reverse_cons, List.foldl_append, ih]
    by_cases hb : b = 0x0A
    · simp [advance, behind, start, lastLine, hb, Nat.add_assoc]
    · simp [advance, behind, start, lastLine, hb]

theorem advance_behind {p : Position} (h : 1 ≤ p.line) (bytes : List UInt8) (b : UInt8) :
    (p.behind bytes).advance b = (p.advance b).behind bytes := by
  unfold advance behind
  by_cases hb : b = 0x0A
  · simp [hb]
    omega
  · by_cases hl : p.line = 1
    · simp [hb, hl]
      omega
    · simp [hb, hl]

theorem one_le_advance {p : Position} (h : 1 ≤ p.line) (b : UInt8) : 1 ≤ (p.advance b).line := by
  unfold advance
  split
  · exact Nat.le_succ_of_le h
  · exact h

theorem one_le_foldl {p : Position} (h : 1 ≤ p.line) (run : List UInt8) :
    1 ≤ (run.foldl advance p).line := by
  induction run generalizing p with
  | nil => exact h
  | cons b run ih => exact ih (one_le_advance h b)

theorem foldl_behind {p : Position} (h : 1 ≤ p.line) (bytes run : List UInt8) :
    run.foldl advance (p.behind bytes) = (run.foldl advance p).behind bytes := by
  induction run generalizing p with
  | nil => rfl
  | cons b run ih =>
    rw [List.foldl_cons, advance_behind h, ih (one_le_advance h b), List.foldl_cons]

theorem retreat_behind {p : Position} {n : Nat} (h : n ≤ p.column) (bytes : List UInt8) :
    (p.behind bytes).retreat n = (p.retreat n).behind bytes := by
  unfold retreat behind
  by_cases hl : p.line = 1
  · simp [hl]
    omega
  · simp [hl]

end Position

/-- A fault at the place behind a text. -/
def Fault.behind (bytes : List UInt8) : Fault → Fault
  | .sourceFailed reason => .sourceFailed reason
  | .refused cause p => .refused cause (p.behind bytes)

namespace Cursor

/-- A cursor at the place behind a text. -/
def behind (bytes : List UInt8) (c : Cursor) : Cursor :=
  { c with position := c.position.behind bytes, taken := c.taken.behind bytes }

/-- The places of a cursor are places of a text, whose lines are counted from one. -/
def Placed (c : Cursor) : Prop := 1 ≤ c.position.line ∧ 1 ≤ c.taken.line

variable {c : Cursor}

theorem placed_pass (h : c.Placed) (run rest : List UInt8) : (c.pass run rest).Placed :=
  ⟨Position.one_le_foldl h.1 run, Position.one_le_foldl h.1 run⟩

theorem placed_look (h : c.Placed) (b : UInt8) : (c.look b).Placed := by
  unfold look
  split
  · exact ⟨h.1, Position.one_le_advance h.1 b⟩
  · exact h

theorem pass_behind (h : c.Placed) (bytes run rest : List UInt8) :
    (c.behind bytes).pass run rest = (c.pass run rest).behind bytes := by
  simp only [pass, behind, Position.foldl_behind h.1]

theorem look_behind (h : c.Placed) (bytes : List UInt8) (b : UInt8) :
    (c.behind bytes).look b = (c.look b).behind bytes := by
  unfold look
  split
  · rename_i hb
    rw [if_pos (show c.buffered = true from hb)]
    simp only [behind, Position.advance_behind h.1]
  · rename_i hb
    rw [if_neg (show ¬ c.buffered = true from hb)]

theorem ahead_behind (h : c.Placed) (bytes : List UInt8) :
    (c.behind bytes).ahead = c.ahead.behind bytes := by
  have hrest : (c.behind bytes).rest = c.rest := rfl
  unfold ahead
  rw [hrest]
  cases c.rest with
  | nil => rfl
  | cons b rest => exact Position.advance_behind h.1 bytes b

end Cursor

namespace Decoder

variable {α : Type}

/-! ## The same text behind other bytes -/

section Displacement

variable (bytes : List UInt8)

/-- A run and a run behind more bytes. -/
def displacementOf : Comparison where
  near c c' := c.Placed ∧ c' = c.behind bytes
  alike f f' := f' = f.behind bytes
  spent _ := False
  void _ := False

variable {bytes}

theorem peek_displacement : (displacementOf bytes).Holds peek := by
  rintro c c' ⟨hc, rfl⟩
  have hrest : (c.behind bytes).rest = c.rest := rfl
  have hend : (c.behind bytes).ending = c.ending := rfl
  unfold peek
  rw [hrest, hend]
  cases c.rest with
  | cons b rest =>
    exact .inr ⟨_, rfl, Cursor.placed_look hc b, Cursor.look_behind hc bytes b⟩
  | nil =>
    cases c.ending with
    | closed => exact .inr ⟨_, rfl, hc, rfl⟩
    | failing reason => exact .inr ⟨_, rfl, rfl⟩

theorem next_displacement : (displacementOf bytes).Holds next := by
  rintro c c' ⟨hc, rfl⟩
  have hrest : (c.behind bytes).rest = c.rest := rfl
  have hend : (c.behind bytes).ending = c.ending := rfl
  unfold next
  rw [hrest, hend]
  cases c.rest with
  | cons b rest =>
    exact .inr ⟨_, rfl, Cursor.placed_pass hc _ _, Cursor.pass_behind hc bytes _ _⟩
  | nil =>
    cases c.ending with
    | closed => exact .inr ⟨_, rfl, hc, rfl⟩
    | failing reason => exact .inr ⟨_, rfl, rfl⟩

theorem span_behind {c : Cursor} (hc : c.Placed) (bytes : List UInt8) (p : UInt8 → Bool) :
    ∃ c₁, c₁.Placed ∧ span p c = .ok (c.rest.takeWhile p, c₁) ∧
      span p (c.behind bytes) = .ok (c.rest.takeWhile p, c₁.behind bytes) :=
  ⟨_, Cursor.placed_pass hc _ _, rfl, by
    simp only [span, ← Cursor.pass_behind hc bytes]
    rfl⟩

theorem glance_behind {c : Cursor} (hc : c.Placed) (bytes : List UInt8) :
    ∃ c₁, c₁.Placed ∧ c₁.rest = c.rest ∧ glance c = .ok (c.rest.head?, c₁) ∧
      glance (c.behind bytes) = .ok (c.rest.head?, c₁.behind bytes) := by
  have hrest : (c.behind bytes).rest = c.rest := rfl
  unfold glance
  rw [hrest]
  cases hr : c.rest with
  | cons b rest =>
    exact ⟨_, Cursor.placed_look hc b, by rw [Cursor.look_rest, hr], rfl,
      by rw [← Cursor.look_behind hc bytes]; rfl⟩
  | nil => exact ⟨c, hc, hr, rfl, rfl⟩

theorem passing_displacement (p : UInt8 → Bool) :
    (displacementOf bytes).Holds (passing p) := by
  refine Comparison.holds_passing peek_displacement ?_
  rintro c c' ⟨hc, rfl⟩
  obtain ⟨c₁, hc₁, hs, hs'⟩ := span_behind hc bytes p
  exact ⟨_, c₁, _, hs, hs', hc₁, rfl⟩

theorem refuseSurplus_displacement :
    (displacementOf bytes).Holds (refuseSurplus : Decoder α) := by
  rintro c c' ⟨hc, rfl⟩
  obtain ⟨c₁, hc₁, hs, hs'⟩ := span_behind hc bytes isGap
  obtain ⟨c₂, hc₂, -, hg, hg'⟩ := glance_behind hc₁ bytes
  simp only [refuseSurplus]
  rw [bind_of_ok hs, bind_of_ok hg, bind_of_ok hs', bind_of_ok hg']
  split <;> exact .inr ⟨_, rfl, by rw [Cursor.ahead_behind hc₂]; rfl⟩

theorem refuseRepeated_displacement (name : String) :
    (displacementOf bytes).Holds (refuseRepeated name : Decoder α) := by
  rintro c c' ⟨hc, rfl⟩
  obtain ⟨c₁, hc₁, hs, hs'⟩ := span_behind hc bytes isGap
  obtain ⟨c₂, hc₂, hrest₂, hg, hg'⟩ := glance_behind hc₁ bytes
  simp only [refuseRepeated]
  rw [bind_of_ok hs, bind_of_ok hg, bind_of_ok hs', bind_of_ok hg']
  split
  · rename_i hb
    obtain ⟨rest, hrest⟩ := List.head?_eq_some_iff.1 hb
    have hr₂ : c₂.rest = 0x7D :: rest := hrest₂.trans hrest
    have hr₂' : (c₂.behind bytes).rest = 0x7D :: rest := hr₂
    rw [bind_of_ok (eat_cons hr₂), bind_of_ok (eat_cons hr₂'), Cursor.pass_behind hc₂]
    exact .inr ⟨_, rfl, rfl⟩
  · exact .inr ⟨_, rfl, rfl⟩

variable (bytes)

/-- The same text behind other bytes, as a simulation. -/
def displacement : Simulation where
  toComparison := displacementOf bytes
  spent_passes h _ := h.elim
  void_of_spent h _ := h.elim
  peek := peek_displacement
  next := next_displacement
  passing := passing_displacement
  refuseHere cause := by
    rintro c c' ⟨-, rfl⟩
    exact .inr ⟨_, rfl, rfl⟩
  refuseNext cause := by
    rintro c c' ⟨hc, rfl⟩
    exact .inr ⟨_, rfl, by rw [Cursor.ahead_behind hc]; rfl⟩
  refuseSurplus := refuseSurplus_displacement
  refuseRepeated := refuseRepeated_displacement
  notUtf8 hfound hnear n hn := by
    obtain ⟨-, rfl⟩ := hnear
    have hcolumn := Nat.le_trans hn (bytes_column hfound)
    refine .inr ⟨_, rfl, ?_⟩
    rw [Cursor.behind, Position.retreat_behind hcolumn]
    rfl

end Displacement

/-- A success at a place is the same success at the place behind other bytes. -/
theorem Built.behind_ok {d : Decoder α} (hd : Built d) {c c' : Cursor} {a : α} (hc : c.Placed)
    (h : d c = .ok (a, c')) (bytes : List UInt8) :
    c'.Placed ∧ d (c.behind bytes) = .ok (a, c'.behind bytes) := by
  have hagrees := (displacement bytes).holds hd c _ ⟨hc, rfl⟩
  rw [h] at hagrees
  rcases hagrees with hspent | ⟨c₁, hc₁, hplaced, rfl⟩
  · exact hspent.elim
  · exact ⟨hplaced, hc₁⟩

/-- A fault at a place is the same fault at the place behind other bytes, moved by these. -/
theorem Built.behind_error {d : Decoder α} (hd : Built d) {c : Cursor} {f : Fault}
    (hc : c.Placed) (h : d c = .error f) (bytes : List UInt8) :
    d (c.behind bytes) = .error (f.behind bytes) := by
  have hagrees := (displacement bytes).holds hd c _ ⟨hc, rfl⟩
  rw [h] at hagrees
  rcases hagrees with hvoid | ⟨f', hf', rfl⟩
  · exact hvoid.elim
  · exact hf'

end Decoder

end BackupReport.Json
