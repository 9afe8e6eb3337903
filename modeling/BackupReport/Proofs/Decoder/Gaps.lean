import BackupReport.Proofs.Decoder.Progress

/-!
# Gaps

What a gap is made of, and where it ends: at the first byte that is none (`gap_cons`), or where the
bytes end (`gap_nil`).
-/

namespace BackupReport.Json.Decoder

/-! ## What was passed -/

/-- What a gap stops before is no gap. -/
theorem isGap_of_gap {c c' : Cursor} {b : UInt8} (h : gap c = .ok (some b, c')) :
    isGap b = false := by
  obtain ⟨run, c₁, hs, hp⟩ := bind_ok h
  cases hs
  rcases peek_ok hp with ⟨b', rest, hr, hb, -⟩ | ⟨-, -, hb, -⟩
  · cases hb
    have hhead := List.head?_dropWhile_not isGap c.rest
    rw [show c.rest.dropWhile isGap = b :: rest from hr] at hhead
    simpa using hhead
  · cases hb

/-- What stands before the byte that a gap stops at is a gap. -/
theorem gap_ok {c c' : Cursor} {r : Option UInt8} (h : gap c = .ok (r, c')) :
    ∃ gaps, c.rest = gaps ++ c'.rest ∧ ∀ b ∈ gaps, isGap b = true := by
  obtain ⟨run, c₁, hs, hp⟩ := bind_ok h
  cases hs
  refine ⟨c.rest.takeWhile isGap, ?_, List.all_eq_true.1 List.all_takeWhile⟩
  have hrest : c.rest.dropWhile isGap = [] ++ c'.rest := (peek_passes hp).1
  rw [List.nil_append] at hrest
  rw [← hrest, List.takeWhile_append_dropWhile]

/-- At the end of a stream there is nothing but a gap. -/
theorem gaps_of_gap_none {c c' : Cursor} (h : gap c = .ok (none, c')) :
    ∀ b ∈ c.rest, isGap b = true := by
  obtain ⟨gaps, hr, hgaps⟩ := gap_ok h
  obtain ⟨run, c₁, -, hp⟩ := bind_ok h
  rcases peek_ok hp with ⟨b, rest, -, hb, -⟩ | ⟨hnil, -, -, rfl⟩
  · cases hb
  · rw [hr, hnil, List.append_nil]
    exact hgaps

/-- A gap that has been passed is not passed again. -/
theorem gap_again {c c' : Cursor} {r : Option UInt8} (h : gap c = .ok (r, c')) :
    gap c' = .ok (r, c') := by
  obtain ⟨run, c₁, hs, hp⟩ := bind_ok h
  cases hs
  rcases peek_ok hp with ⟨b', rest, hr, rfl, rfl⟩ | ⟨hr, he, rfl, rfl⟩
  · have hgap := isGap_of_gap h
    have hr' : c.rest.dropWhile isGap = b' :: rest := hr
    simp only [gap, span, peek, bind, StateT.bind, Except.bind, Cursor.pass, Cursor.look, hr']
    cases c.buffered <;> simp [hgap]
  · have hr' : c.rest.dropWhile isGap = [] := hr
    have he' : c.ending = .closed := he
    simp [gap, span, peek, bind, StateT.bind, Except.bind, Cursor.pass, hr', he']

/-! ## What will be passed -/

/-- A gap is passed up to the first byte that is none. -/
theorem gap_cons {c : Cursor} {gaps rest : List UInt8} {b : UInt8}
    (h : c.rest = gaps ++ b :: rest) (hgaps : ∀ x ∈ gaps, isGap x = true)
    (hb : isGap b = false) :
    ∃ c', gap c = .ok (some b, c') ∧ c'.rest = b :: rest ∧ c'.ending = c.ending := by
  have hdrop : c.rest.dropWhile isGap = b :: rest := by
    rw [h, List.dropWhile_append_of_pos hgaps, List.dropWhile_cons_of_neg (by simp [hb])]
  have hs : span isGap c =
      .ok (c.rest.takeWhile isGap, c.pass (c.rest.takeWhile isGap) (b :: rest)) := by
    simp only [span, hdrop]
  unfold gap
  rw [bind_of_ok hs]
  exact ⟨_, rfl, Cursor.look_rest _ b, Cursor.look_ending _ b⟩

/-- Where nothing but a gap is left, the gap leads to the end or to the failure behind it. -/
theorem gap_nil {c : Cursor} (h : ∀ b ∈ c.rest, isGap b = true) :
    match c.ending with
    | .closed => ∃ c', gap c = .ok (none, c')
    | .failing reason => gap c = .error (.sourceFailed reason) := by
  have hdrop : c.rest.dropWhile isGap = [] := by
    rw [← List.append_nil c.rest, List.dropWhile_append_of_pos h, List.dropWhile_nil]
  have hs : span isGap c = .ok (c.rest.takeWhile isGap, c.pass (c.rest.takeWhile isGap) []) := by
    simp only [span, hdrop]
  unfold gap
  rw [bind_of_ok hs]
  cases he : c.ending with
  | closed =>
    exact ⟨c.pass (c.rest.takeWhile isGap) [], by simp [peek, Cursor.pass, he]⟩
  | failing reason => simp [peek, Cursor.pass, he]

end BackupReport.Json.Decoder
