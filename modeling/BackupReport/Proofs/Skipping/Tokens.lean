import BackupReport.Proofs.Decoder.Columns

/-!
# Strings and numbers that are passed over

A string or number is read with the same steps whether its value is wanted or not; what is left out
are judgements: whether a string is UTF-8, whether its surrogates pair up, whether a number fits.
So what decodes is also passed over, up to the very same cursor (`Text.skip_of_decode`,
`Numeral.skip_of_decode`).
-/

namespace BackupReport.Json

open Decoder

variable {c c' : Cursor}

/-! ## Strings -/

namespace Text

/-- The byte at the cursor is passed as a round of passing over a string passes it. -/
theorem peek_eat_of_byte {b : UInt8} (h : byte c = .ok (b, c')) :
    peek c = .ok (some b, c.look b) ∧ eat (c.look b) = .ok ((), c') := by
  obtain ⟨rest, hr, rfl⟩ := byte_ok h
  have hlook : (c.look b).rest = b :: rest := by rw [Cursor.look_rest, hr]
  exact ⟨by simp only [peek, hr], by rw [eat_cons hlook, Cursor.look_pass]⟩

/-- An escape that is passed over is one round of passing over a string. -/
theorem skipPiece_escape {c₁ : Cursor} (hb : byte c = .ok (0x5C, c₁))
    (h : skipEscape c₁ = .ok ((), c')) : skipPiece () c = .ok (.more (), c') := by
  obtain ⟨hpeek, heat⟩ := peek_eat_of_byte hb
  unfold skipPiece
  rw [bind_of_ok hpeek]
  dsimp only
  rw [if_neg (by decide), if_pos rfl, bind_of_ok heat, bind_of_ok h]
  rfl

theorem skipEscape_numbered {c₁ : Cursor} {unit : Nat} (hb : byte c = .ok (0x75, c₁))
    (h : codeUnit c₁ = .ok (unit, c')) : skipEscape c = .ok ((), c') := by
  unfold skipEscape
  rw [bind_of_ok hb, if_neg (by decide), if_pos rfl, bind_of_ok h]
  rfl

/-- The second half of a surrogate pair is passed over as an escape of its own. -/
theorem skipPiece_of_secondHalf {high : Nat} {x : Char} (h : secondHalf high c = .ok (x, c')) :
    skipPiece () c = .ok (.more (), c') := by
  obtain ⟨b₁, c₁, h₁, h⟩ := bind_ok h
  split at h
  · rename_i hslash
    obtain ⟨b₂, c₂, h₂, h⟩ := bind_ok h
    split at h
    · rename_i hletter
      obtain ⟨low, c₃, hlow, h⟩ := bind_ok h
      split at h
      · obtain ⟨-, rfl⟩ := pure_ok h
        exact skipPiece_escape (hslash ▸ h₁) (skipEscape_numbered (hletter ▸ h₂) hlow)
      · cases h
    · cases h
  · cases h

/-- An escape is passed over in one round, or in two if it is a surrogate pair. -/
theorem skipEscape_of_escape {found : List UInt8} (h : escape c = .ok (found, c')) :
    ∃ c₁, skipEscape c = .ok ((), c₁) ∧ (c₁ = c' ∨ skipPiece () c₁ = .ok (.more (), c')) := by
  obtain ⟨b, c₁, hb, h⟩ := bind_ok h
  cases hl : lettered? b with
  | some x =>
    simp only [hl] at h
    obtain ⟨-, rfl⟩ := pure_ok h
    refine ⟨c₁, ?_, .inl rfl⟩
    unfold skipEscape
    rw [bind_of_ok hb, if_pos (by rw [hl]; rfl)]
    rfl
  | none =>
    simp only [hl] at h
    split at h
    · rename_i hletter
      obtain ⟨x, hx, -⟩ := map_ok h
      obtain ⟨unit, c₂, hunit, hx⟩ := bind_ok hx
      refine ⟨c₂, skipEscape_numbered (hletter ▸ hb) hunit, ?_⟩
      split at hx
      · cases hx
      · split at hx
        · exact .inr (skipPiece_of_secondHalf hx)
        · exact .inl (pure_ok hx).2
    · cases h

theorem skip_of_piece_more {sofar sofar' : List UInt8}
    (h : piece sofar c = .ok (.more sofar', c')) :
    iterate skipPiece () c = iterate skipPiece () c' := by
  have hprogress : Progresses skipPiece := Consumes.progresses consumes_skipPiece
  obtain ⟨b, c₁, hb, h⟩ := bind_ok h
  split at h
  · cases (pure_ok h).1
  · rename_i hquote
    split at h
    · rename_i hslash
      obtain ⟨found, c₂, hescape, h⟩ := bind_ok h
      obtain ⟨-, rfl⟩ := pure_ok h
      obtain ⟨c₃, hskip, hend⟩ := skipEscape_of_escape hescape
      rw [iterate_more hprogress (skipPiece_escape (hslash ▸ hb) hskip)]
      rcases hend with rfl | hpair
      · rfl
      · exact iterate_more hprogress hpair
    · rename_i hslash
      split at h
      · cases h
      · rename_i hcontrol
        obtain ⟨-, rfl⟩ := pure_ok h
        obtain ⟨hpeek, heat⟩ := peek_eat_of_byte hb
        have hpiece : skipPiece () c = .ok (.more (), c₁) := by
          unfold skipPiece
          rw [bind_of_ok hpeek]
          dsimp only
          rw [if_neg hquote, if_neg hslash, if_neg hcontrol, bind_of_ok heat]
          rfl
        exact iterate_more hprogress hpiece

theorem skip_of_piece_done {sofar found : List UInt8}
    (h : piece sofar c = .ok (.done found, c')) : iterate skipPiece () c = .ok ((), c') := by
  obtain ⟨b, c₁, hb, h⟩ := bind_ok h
  split at h
  · rename_i hquote
    obtain ⟨-, rfl⟩ := pure_ok h
    obtain ⟨hpeek, heat⟩ := peek_eat_of_byte hb
    refine iterate_done (Consumes.progresses consumes_skipPiece) ?_
    unfold skipPiece
    rw [bind_of_ok hpeek]
    dsimp only
    rw [if_pos hquote, bind_of_ok heat]
    rfl
  · split at h
    · obtain ⟨_, c₂, -, h⟩ := bind_ok h
      cases (pure_ok h).1
    · split at h
      · cases h
      · cases (pure_ok h).1

/-- The bytes of a string are passed over up to the closing quote, like the string itself. -/
theorem skip_of_decode {s : String} (h : decode c = .ok (s, c')) : skip c = .ok ((), c') := by
  have hprogress : Progresses piece := Consumes.progresses consumes_piece
  obtain ⟨found, cs, hbytes, -, -⟩ := string_ok h
  have key : ∀ (sofar : List UInt8) (c : Cursor), iterate piece sofar c = .ok (found, c') →
      iterate skipPiece () c = .ok ((), c') := by
    intro sofar c
    induction sofar, c using iterate_induction hprogress with
    | _ sofar c ih =>
      intro h
      rcases iterate_ok hprogress h with hdone | ⟨sofar', c₁, hmore, h⟩
      · exact skip_of_piece_done hdone
      · rw [skip_of_piece_more hmore]
        exact ih sofar' c₁ hmore h
  exact key [] c hbytes

end Text

/-! ## Numbers -/

namespace Numeral

variable {use : Use}

theorem wholeDigits_skipped {whole : List UInt8} (h : wholeDigits use c = .ok (whole, c')) :
    wholeDigits .skipped c = .ok (whole, c') := by
  obtain ⟨r, c₁, hn, h⟩ := bind_ok h
  unfold wholeDigits
  rw [bind_of_ok hn]
  cases r with
  | none => cases h
  | some b => exact h

theorem fractionDigits_skipped {fraction : Option (List UInt8)}
    (h : fractionDigits use c = .ok (fraction, c')) :
    fractionDigits .skipped c = .ok (fraction, c') := by
  obtain ⟨r, c₁, hp, h⟩ := bind_ok h
  unfold fractionDigits
  rw [bind_of_ok hp]
  split at h
  · rename_i hpoint
    rw [if_pos hpoint]
    obtain ⟨_, c₂, he, h⟩ := bind_ok h
    obtain ⟨digits, c₃, hs, h⟩ := bind_ok h
    obtain ⟨following, c₄, hf, h⟩ := bind_ok h
    rw [bind_of_ok he, bind_of_ok hs, bind_of_ok hf]
    split at h
    · cases following with
      | none => cases h
      | some b => cases h
    · rename_i hdigits
      rw [if_neg hdigits]
      exact h
  · rename_i hpoint
    rw [if_neg hpoint]
    exact h

/-- A digit of an exponent that is not above the limit is taken with or without the limit. -/
theorem exponentDigit_unbounded {bounded : Bool} {n : Nat} {r : Step Nat Nat}
    (h : exponentDigit bounded n c = .ok (r, c')) : exponentDigit false n c = .ok (r, c') := by
  obtain ⟨following, c₁, hp, h⟩ := bind_ok h
  unfold exponentDigit
  rw [bind_of_ok hp]
  cases following with
  | none => exact h
  | some b =>
    dsimp only at h ⊢
    split at h
    · rename_i hdigit
      obtain ⟨_, c₂, he, h⟩ := bind_ok h
      rw [if_pos hdigit, bind_of_ok he, if_neg (by simp)]
      split at h
      · cases h
      · exact h
    · rename_i hdigit
      rw [if_neg hdigit]
      exact h

theorem iterate_exponentDigit_unbounded {bounded : Bool} (n : Nat) (c : Cursor) {m : Nat}
    (h : iterate (exponentDigit bounded) n c = .ok (m, c')) :
    iterate (exponentDigit false) n c = .ok (m, c') := by
  induction n, c using iterate_induction (progresses_exponentDigit bounded) with
  | _ n c ih =>
    rcases iterate_ok (progresses_exponentDigit bounded) h with hdone | ⟨n', c₁, hmore, h⟩
    · exact iterate_done (progresses_exponentDigit false) (exponentDigit_unbounded hdone)
    · rw [iterate_more (progresses_exponentDigit false) (exponentDigit_unbounded hmore)]
      exact ih n' c₁ hmore h

theorem exponentPart_skipped {nonzero : Bool} {exponent : Option Int}
    (h : exponentPart use nonzero c = .ok (exponent, c')) :
    exponentPart .skipped nonzero c = .ok (exponent, c') := by
  obtain ⟨r, c₁, hp, h⟩ := bind_ok h
  unfold exponentPart
  rw [bind_of_ok hp]
  cases r with
  | none => exact h
  | some b =>
    dsimp only at h ⊢
    split at h
    · rename_i hletter
      obtain ⟨_, c₂, he, h⟩ := bind_ok h
      obtain ⟨negative, c₃, hs, h⟩ := bind_ok h
      obtain ⟨following, c₄, hn, h⟩ := bind_ok h
      rw [if_pos hletter, bind_of_ok he, bind_of_ok hs, bind_of_ok hn]
      cases following with
      | none => cases h
      | some d =>
        dsimp only at h ⊢
        split at h
        · rename_i hdigit
          obtain ⟨n, c₅, hi, h⟩ := bind_ok h
          rw [if_pos hdigit]
          exact (bind_of_ok (iterate_exponentDigit_unbounded _ _ hi)).trans h
        · cases h
    · rename_i hletter
      rw [if_neg hletter]
      exact h

theorem scan_skipped {negative : Bool} {m : Numeral} (h : scan use negative c = .ok (m, c')) :
    ∃ m', scan .skipped false c = .ok (m', c') := by
  obtain ⟨whole, c₁, hwhole, h⟩ := bind_ok h
  obtain ⟨fraction, c₂, hfraction, h⟩ := bind_ok h
  obtain ⟨exponent, c₃, hexponent, h⟩ := bind_ok h
  obtain ⟨-, rfl⟩ := pure_ok h
  refine ⟨⟨false, whole, fraction, exponent⟩, ?_⟩
  unfold scan
  rw [bind_of_ok (wholeDigits_skipped hwhole), bind_of_ok (fractionDigits_skipped hfraction),
    bind_of_ok (exponentPart_skipped hexponent)]
  rfl

/-- A number is passed over like the numeral that it is written as. -/
theorem skip_of_decode {n : Number} (h : Number.decode c = .ok (n, c')) :
    skip c = .ok ((), c') := by
  have hscan : ∀ {negative : Bool} {c : Cursor}, Number.decodeUnsigned negative c = .ok (n, c') →
      ∃ m', scan .skipped false c = .ok (m', c') := by
    intro negative c h
    obtain ⟨m, c₁, hscan, h⟩ := bind_ok h
    cases hm : m.number? with
    | some x =>
      simp only [hm] at h
      obtain ⟨-, rfl⟩ := pure_ok h
      exact scan_skipped hscan
    | none =>
      simp only [hm] at h
      cases h
  obtain ⟨r, c₁, hp, h⟩ := bind_ok h
  unfold skip
  rw [bind_of_ok hp]
  split at h
  · rename_i hminus
    obtain ⟨_, c₂, he, h⟩ := bind_ok h
    obtain ⟨m', hm'⟩ := hscan h
    rw [if_pos hminus, bind_of_ok he]
    exact bind_of_ok hm'
  · rename_i hminus
    obtain ⟨m', hm'⟩ := hscan h
    rw [if_neg hminus]
    exact bind_of_ok hm'

end Numeral

end BackupReport.Json
