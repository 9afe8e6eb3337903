import BackupReport.Proofs.Decoder.Simulation

/-!
# More bytes and fewer behind a text

What a decoder makes of a text stays as it is when more bytes follow, as long as the decoder has not
met the end of the text.  It has not where bytes are left over (`Built.extend_ok`), and it cannot
have where reading on would have failed: a source that fails shows its failure to whoever comes to
it, with the two refusals excepted that look for a closing byte behind a gap
(`Built.extend_refused`).

The other way round, bytes may be taken away behind a text as long as the decoder does not come to
them (`restriction`); it looks no further than one byte ahead.
-/

namespace BackupReport.Json

/-! ## Cursors before more bytes -/

namespace Cursor

/-- The same place with more bytes to come, and something else behind them. -/
def extend (c : Cursor) (more : List UInt8) (e : Ending) : Cursor :=
  { c with rest := c.rest ++ more, ending := e }

variable {c : Cursor} {more : List UInt8} {e : Ending}

@[simp] theorem extend_rest : (c.extend more e).rest = c.rest ++ more := rfl

@[simp] theorem extend_ending : (c.extend more e).ending = e := rfl

theorem extend_pass (run rest : List UInt8) :
    (c.extend more e).pass run (rest ++ more) = (c.pass run rest).extend more e := rfl

theorem extend_look (b : UInt8) : (c.extend more e).look b = (c.look b).extend more e := by
  unfold look
  split
  · rename_i hb
    rw [if_pos (show c.buffered = true from hb)]
    rfl
  · rename_i hb
    rw [if_neg (show ¬ c.buffered = true from hb)]

end Cursor

/-- Whether a gap and a closing bracket come next. -/
def BracketNext (more : List UInt8) : Prop := (more.dropWhile Decoder.isGap).head? = some 0x5D

/-- Two faults have the same cause; but that a comma stands before a closing bracket may go
unnoticed where reading on fails before that bracket. -/
def Fault.Akin (more : List UInt8) : Fault → Fault → Prop
  | .refused cause _, .refused cause' _ =>
    cause = cause' ∨ cause = .trailingCharacters ∧ cause' = .trailingComma ∧ BracketNext more
  | .sourceFailed reason, .sourceFailed reason' => reason = reason'
  | _, _ => False

namespace Decoder

variable {α : Type}

section Extension

variable (start e : Ending) (more : List UInt8)

/-- A run before a given ending and a run with more bytes before it, until the first has come to the
end of its text. -/
def extensionOf : Comparison where
  near c c' := c.ending = start ∧ c' = c.extend more e
  alike := Fault.Akin more
  spent c := start = .closed ∧ c.rest = []
  void f := start = .closed ∨ ∃ reason, f = .sourceFailed reason

variable {start e more}

theorem peek_extension : (extensionOf start e more).Holds peek := by
  rintro c c' ⟨he, rfl⟩
  unfold peek
  cases hr : c.rest with
  | cons b rest =>
    refine .inr ⟨_, by simp [hr], ?_, (Cursor.extend_look b)⟩
    rw [Cursor.look_ending, he]
  | nil =>
    cases hc : c.ending with
    | closed => exact .inl ⟨he ▸ hc, hr⟩
    | failing reason => exact .inl (.inr ⟨reason, rfl⟩)

theorem next_extension : (extensionOf start e more).Holds next := by
  rintro c c' ⟨he, rfl⟩
  unfold next
  cases hr : c.rest with
  | cons b rest => exact .inr ⟨_, by simp [hr], he, Cursor.extend_pass [b] rest⟩
  | nil =>
    cases hc : c.ending with
    | closed => exact .inl ⟨he ▸ hc, hr⟩
    | failing reason => exact .inl (.inr ⟨reason, rfl⟩)

/-- A run that ends before the end of the text ends there with more bytes behind it too. -/
theorem span_extend {p : UInt8 → Bool} {c : Cursor} {b : UInt8} {rest : List UInt8}
    (h : c.rest.dropWhile p = b :: rest) :
    span p (c.extend more e) =
      .ok (c.rest.takeWhile p, (c.pass (c.rest.takeWhile p) (b :: rest)).extend more e) := by
  have hlen : (c.rest.takeWhile p).length ≠ c.rest.length := by
    intro hlen
    have := congrArg List.length (List.takeWhile_append_dropWhile (p := p) (l := c.rest))
    rw [h, List.length_append, hlen, List.length_cons] at this
    omega
  have htake : (c.rest ++ more).takeWhile p = c.rest.takeWhile p := by
    rw [List.takeWhile_append, if_neg hlen]
  have hdrop : (c.rest ++ more).dropWhile p = (b :: rest) ++ more := by
    rw [List.dropWhile_append, if_neg (by simp [h]), h]
  simp only [span, Cursor.extend_rest, htake, hdrop, Cursor.extend_pass]

theorem passing_extension (p : UInt8 → Bool) : (extensionOf start e more).Holds (passing p) := by
  rintro c c' ⟨he, rfl⟩
  cases hd : c.rest.dropWhile p with
  | cons b rest =>
    have hspan : span p c = .ok (c.rest.takeWhile p, c.pass (c.rest.takeWhile p) (b :: rest)) := by
      simp only [span, hd]
    simp only [passing]
    rw [bind_of_ok hspan, bind_of_ok (span_extend hd)]
    exact .inr ⟨_, rfl, (Cursor.look_ending _ b).trans he, Cursor.extend_look b⟩
  | nil =>
    have hspan : span p c = .ok (c.rest.takeWhile p, c.pass (c.rest.takeWhile p) []) := by
      simp only [span, hd]
    simp only [passing]
    rw [bind_of_ok hspan]
    cases hc : c.ending with
    | closed =>
      have hpeek : peek (c.pass (c.rest.takeWhile p) []) =
          .ok (none, c.pass (c.rest.takeWhile p) []) := by
        simp [peek, Cursor.pass, hc]
      rw [bind_of_ok hpeek]
      exact .inl ⟨he ▸ hc, rfl⟩
    | failing reason =>
      have hpeek : peek (c.pass (c.rest.takeWhile p) []) = .error (.sourceFailed reason) := by
        simp [peek, Cursor.pass, hc]
      rw [bind_of_error hpeek]
      exact .inl (.inr ⟨reason, rfl⟩)

theorem refuseSurplus_extension :
    (extensionOf start e more).Holds (refuseSurplus : Decoder α) := by
  rintro c c' ⟨he, rfl⟩
  obtain ⟨p, hp⟩ := refuseSurplus_eq (α := α) c
  obtain ⟨p', hp'⟩ := refuseSurplus_eq (α := α) (c.extend more e)
  rw [hp]
  refine .inr ⟨_, hp', ?_⟩
  cases hd : c.rest.dropWhile isGap with
  | cons b rest =>
    have hdrop : (c.extend more e).rest.dropWhile isGap = (b :: rest) ++ more := by
      simp [List.dropWhile_append, hd]
    rw [hdrop]
    exact .inl rfl
  | nil =>
    -- the gap reaches the end, so that the bracket behind it goes unnoticed
    have hdrop : (c.extend more e).rest.dropWhile isGap = more.dropWhile isGap := by
      simp [List.dropWhile_append, hd]
    rw [hdrop]
    simp only [List.head?_nil, reduceCtorEq, if_false]
    split
    · rename_i hnext
      exact .inr ⟨rfl, rfl, hnext⟩
    · exact .inl rfl

theorem refuseRepeated_extension (name : String) :
    (extensionOf start e more).Holds (refuseRepeated name : Decoder α) := by
  rintro c c' -
  obtain ⟨p, hp⟩ := refuseRepeated_eq (α := α) name c
  obtain ⟨p', hp'⟩ := refuseRepeated_eq (α := α) name c'
  rw [hp]
  exact .inr ⟨_, hp', .inl rfl⟩

variable (start e more)

/-- More bytes behind a text, as a simulation. -/
def extension : Simulation where
  toComparison := extensionOf start e more
  spent_passes h hrun := ⟨h.1, by
    have := hrun.1
    rw [h.2] at this
    exact (List.nil_eq_append_iff.1 this).2⟩
  void_of_spent h _ := .inl h.1
  peek := peek_extension
  next := next_extension
  passing := passing_extension
  refuseHere cause := by
    rintro c c' ⟨-, rfl⟩
    exact .inr ⟨_, rfl, .inl rfl⟩
  refuseNext cause := by
    rintro c c' ⟨-, rfl⟩
    exact .inr ⟨_, rfl, .inl rfl⟩
  refuseSurplus := refuseSurplus_extension
  refuseRepeated := refuseRepeated_extension
  notUtf8 _ _ _ _ := .inr ⟨_, rfl, .inl rfl⟩

end Extension

/-! ## Fewer bytes behind a text -/

section Restriction

variable (cut : List UInt8) (e : Ending)

/-- A run with more bytes before it and the run without them, until the first has come to those
bytes. -/
def restrictionOf : Comparison where
  near c c' := c = c'.extend cut e
  alike _ _ := False
  spent c := c.rest.length ≤ cut.length
  void _ := True

variable {cut e}

theorem peek_restriction : (restrictionOf cut e).Holds peek := by
  rintro _ c rfl
  unfold peek
  cases hr : c.rest with
  | cons b rest =>
    rw [Cursor.extend_rest, hr, List.cons_append]
    exact .inr ⟨c.look b, rfl, Cursor.extend_look b⟩
  | nil =>
    -- what is looked at is the first of the bytes that are to go
    have hrest : (c.extend cut e).rest = cut := by simp [hr]
    rw [hrest, Cursor.extend_ending]
    cases cut with
    | cons b rest => exact .inl (by simp [restrictionOf, hr])
    | nil =>
      cases e with
      | closed => exact .inl (by simp [restrictionOf, hr])
      | failing reason => exact .inl trivial

theorem next_restriction : (restrictionOf cut e).Holds next := by
  rintro _ c rfl
  unfold next
  cases hr : c.rest with
  | cons b rest =>
    rw [Cursor.extend_rest, hr, List.cons_append]
    exact .inr ⟨c.pass [b] rest, rfl, Cursor.extend_pass [b] rest⟩
  | nil =>
    have hrest : (c.extend cut e).rest = cut := by simp [hr]
    rw [hrest, Cursor.extend_ending]
    cases cut with
    | cons b rest => exact .inl (by simp [restrictionOf, Cursor.pass])
    | nil =>
      cases e with
      | closed => exact .inl (by simp [restrictionOf, hr])
      | failing reason => exact .inl trivial

theorem passing_restriction (p : UInt8 → Bool) : (restrictionOf cut e).Holds (passing p) := by
  rintro _ c rfl
  cases hd : c.rest.dropWhile p with
  | cons b rest =>
    have hspan : span p c = .ok (c.rest.takeWhile p, c.pass (c.rest.takeWhile p) (b :: rest)) := by
      simp only [span, hd]
    simp only [passing]
    rw [bind_of_ok hspan, bind_of_ok (span_extend hd)]
    exact .inr ⟨_, rfl, Cursor.extend_look b⟩
  | nil =>
    cases hok : passing p (c.extend cut e) with
    | error f => exact .inl trivial
    | ok r =>
      obtain ⟨⟨run, r⟩, c'⟩ := r
      obtain ⟨c₁, rfl, -, hp⟩ := passing_ok hok
      -- all bytes that stay are passed
      have hall : ∀ b ∈ c.rest, p b = true := by
        have happend := List.takeWhile_append_dropWhile (p := p) (l := c.rest)
        rw [hd, List.append_nil] at happend
        rw [← happend]
        exact List.all_eq_true.1 List.all_takeWhile
      have hdrop : (c.extend cut e).rest.dropWhile p = cut.dropWhile p := by
        rw [Cursor.extend_rest, List.dropWhile_append_of_pos hall]
      have hle := (peek_passes hp).length_le
      have hcut := (List.dropWhile_suffix (l := cut) p).length_le
      rw [hdrop] at hle
      exact .inl (Nat.le_trans hle hcut)

variable (cut e)

/-- Fewer bytes behind a text, as a simulation. -/
def restriction : Simulation where
  toComparison := restrictionOf cut e
  spent_passes h hrun := Nat.le_trans hrun.length_le h
  void_of_spent _ _ := trivial
  peek := peek_restriction
  next := next_restriction
  passing := passing_restriction
  refuseHere _ _ _ _ := .inl trivial
  refuseNext _ _ _ _ := .inl trivial
  refuseSurplus := by
    rintro α c c' -
    obtain ⟨p, hp⟩ := refuseSurplus_eq (α := α) c
    rw [hp]
    exact .inl trivial
  refuseRepeated := by
    rintro α name c c' -
    obtain ⟨p, hp⟩ := refuseRepeated_eq (α := α) name c
    rw [hp]
    exact .inl trivial
  notUtf8 _ _ _ _ := .inl trivial

end Restriction

/-! ## The laws -/

/-- A success that leaves bytes over, or that has not met the end of a source that fails, is the
same success before more bytes. -/
theorem Built.extend_ok {d : Decoder α} (hd : Built d) {c c' : Cursor} {a : α}
    (h : d c = .ok (a, c')) (hopen : c'.rest ≠ [] ∨ c.ending ≠ .closed) (more : List UInt8)
    (e : Ending) : d (c.extend more e) = .ok (a, c'.extend more e) := by
  have hagrees := (extension c.ending e more).holds hd c _ ⟨rfl, rfl⟩
  rw [h] at hagrees
  rcases hagrees with ⟨hclosed, hnil⟩ | ⟨c₁, hc₁, -, rfl⟩
  · rcases hopen with hrest | hend
    · exact absurd hnil hrest
    · exact absurd hclosed hend
  · exact hc₁

/-- A refusal by a source that fails later is a refusal before more bytes, for the same cause but
for an unnoticed bracket. -/
theorem Built.extend_refused {d : Decoder α} (hd : Built d) {c : Cursor} {cause : Cause}
    {p : Position} (h : d c = .error (.refused cause p)) (hend : c.ending ≠ .closed)
    (more : List UInt8) (e : Ending) :
    ∃ cause' p', d (c.extend more e) = .error (.refused cause' p') ∧
      (Fault.refused cause p).Akin more (.refused cause' p') := by
  have hagrees := (extension c.ending e more).holds hd c _ ⟨rfl, rfl⟩
  rw [h] at hagrees
  rcases hagrees with (hclosed | ⟨reason, hreason⟩) | ⟨f', hf', hakin⟩
  · exact absurd hclosed hend
  · cases hreason
  · cases f' with
    | sourceFailed reason => exact absurd hakin id
    | refused cause' p' => exact ⟨cause', p', hf', hakin⟩

end Decoder

end BackupReport.Json
