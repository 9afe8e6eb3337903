import BackupReport.Proofs.Decoder.Assembly

/-!
# The columns of a string

A string stands in one line: a newline in it is refused, and so is one in an escape.  Each escape is
written with at least as many bytes as it stands for, so that a string has no more bytes than lie
before its end in the line (`bytes_column`).
-/

namespace BackupReport.Json.Decoder

/-! ## Single bytes and escapes -/

theorem byte_ok {c c' : Cursor} {b : UInt8} (h : Text.byte c = .ok (b, c')) :
    ∃ rest, c.rest = b :: rest ∧ c' = c.pass [b] rest := by
  obtain ⟨r, c₁, hn, h⟩ := bind_ok h
  rcases next_ok hn with ⟨b', rest, hr, rfl, rfl⟩ | ⟨-, -, rfl, -⟩
  · obtain ⟨rfl, rfl⟩ := pure_ok h
    exact ⟨rest, hr, rfl⟩
  · cases h

theorem byte_column {c c' : Cursor} {b : UInt8} (h : Text.byte c = .ok (b, c')) (hb : b ≠ 0x0A) :
    c'.position.column = c.position.column + 1 := by
  obtain ⟨rest, -, rfl⟩ := byte_ok h
  simp [Cursor.pass, Position.advance, hb]

theorem byte_taken {c c' : Cursor} {b : UInt8} (h : Text.byte c = .ok (b, c')) :
    c'.taken = c'.position := by
  obtain ⟨rest, -, rfl⟩ := byte_ok h
  rfl

theorem hexValue?_newline : Text.hexValue? 0x0A = none := by decide

theorem codeUnit_column {c c' : Cursor} {u : Nat} (h : Text.codeUnit c = .ok (u, c')) :
    c'.position.column = c.position.column + 4 := by
  obtain ⟨b₁, c₁, h₁, h⟩ := bind_ok h
  obtain ⟨b₂, c₂, h₂, h⟩ := bind_ok h
  obtain ⟨b₃, c₃, h₃, h⟩ := bind_ok h
  obtain ⟨b₄, c₄, h₄, h⟩ := bind_ok h
  cases hu : Text.unitOfHex? b₁ b₂ b₃ b₄ with
  | none =>
    simp only [hu] at h
    cases h
  | some unit =>
    simp only [hu] at h
    obtain ⟨-, rfl⟩ := pure_ok h
    -- a newline has no value as a digit
    have hne : b₁ ≠ 0x0A ∧ b₂ ≠ 0x0A ∧ b₃ ≠ 0x0A ∧ b₄ ≠ 0x0A := by
      refine ⟨?_, ?_, ?_, ?_⟩ <;> rintro rfl <;>
        simp [Text.unitOfHex?, hexValue?_newline] at hu
    have e₁ := byte_column h₁ hne.1
    have e₂ := byte_column h₂ hne.2.1
    have e₃ := byte_column h₃ hne.2.2.1
    have e₄ := byte_column h₄ hne.2.2.2
    omega

theorem secondHalf_column {high : Nat} {c c' : Cursor} {x : Char}
    (h : Text.secondHalf high c = .ok (x, c')) :
    c.position.column ≤ c'.position.column := by
  obtain ⟨b₁, c₁, h₁, h⟩ := bind_ok h
  split at h
  · rename_i hb₁
    have e₁ := byte_column h₁ (by rw [hb₁]; decide)
    obtain ⟨b₂, c₂, h₂, h⟩ := bind_ok h
    split at h
    · rename_i hb₂
      have e₂ := byte_column h₂ (by rw [hb₂]; decide)
      obtain ⟨low, c₃, h₃, h⟩ := bind_ok h
      have e₃ := codeUnit_column h₃
      split at h
      · obtain ⟨-, rfl⟩ := pure_ok h
        omega
      · cases h
    · cases h
  · cases h

theorem numbered_column {c c' : Cursor} {x : Char} (h : Text.numbered c = .ok (x, c')) :
    c.position.column + 4 ≤ c'.position.column := by
  obtain ⟨unit, c₁, h₁, h⟩ := bind_ok h
  have e₁ := codeUnit_column h₁
  split at h
  · cases h
  · split at h
    · have e₂ := secondHalf_column h
      omega
    · obtain ⟨-, rfl⟩ := pure_ok h
      omega

theorem length_encodeChar_le (x : Char) : (Utf8.encodeChar x).length ≤ 4 := by
  unfold Utf8.encodeChar
  dsimp only
  split
  · simp
  · split
    · simp
    · split
      · simp
      · simp

/-- An escape is written with at least as many bytes as it stands for. -/
theorem escape_column {c c' : Cursor} {found : List UInt8}
    (h : Text.escape c = .ok (found, c')) :
    c.position.column + found.length ≤ c'.position.column := by
  obtain ⟨b, c₁, h₁, h⟩ := bind_ok h
  cases hl : Text.lettered? b with
  | some x =>
    simp only [hl] at h
    obtain ⟨rfl, rfl⟩ := pure_ok h
    have hb : b ≠ 0x0A := by
      rintro rfl
      cases hl
    simp [byte_column h₁ hb]
  | none =>
    simp only [hl] at h
    split at h
    · rename_i hb
      have e₁ := byte_column h₁ (by rw [hb]; decide)
      obtain ⟨x, hx, rfl⟩ := map_ok h
      have e₂ := numbered_column hx
      have := length_encodeChar_le x
      omega
    · cases h

/-! ## Whole strings -/

/-- The bytes of a string that a round of reading it leaves. -/
def gathered : Step (List UInt8) (List UInt8) → List UInt8
  | .more sofar => sofar.reverse
  | .done found => found

/-- One round of reading a string moves at least as far to the right as it adds bytes. -/
theorem piece_column {sofar : List UInt8} {c c' : Cursor}
    {r : Step (List UInt8) (List UInt8)} (h : Text.piece sofar c = .ok (r, c'))
    (hc : sofar.length ≤ c.position.column) : (gathered r).length ≤ c'.position.column := by
  obtain ⟨b, c₁, h₁, h⟩ := bind_ok h
  split at h
  · rename_i hb
    obtain ⟨rfl, rfl⟩ := pure_ok h
    have e₁ := byte_column h₁ (by rw [hb]; decide)
    simp only [gathered, List.length_reverse]
    omega
  · split at h
    · rename_i hb
      have e₁ := byte_column h₁ (by rw [hb]; decide)
      obtain ⟨found, c₂, h₂, h⟩ := bind_ok h
      have e₂ := escape_column h₂
      obtain ⟨rfl, rfl⟩ := pure_ok h
      simp only [gathered, List.length_reverse, List.length_append]
      omega
    · split at h
      · cases h
      · rename_i hb
        obtain ⟨rfl, rfl⟩ := pure_ok h
        have hne : b ≠ 0x0A := by
          rintro rfl
          exact hb (by decide)
        have e₁ := byte_column h₁ hne
        simp only [gathered, List.length_reverse, List.length_cons]
        omega

/-- A string ends behind a byte that has been taken, its closing quote. -/
theorem piece_done_taken {sofar found : List UInt8} {c c' : Cursor}
    (h : Text.piece sofar c = .ok (.done found, c')) : c'.taken = c'.position := by
  obtain ⟨b, c₁, h₁, h⟩ := bind_ok h
  split at h
  · obtain ⟨-, rfl⟩ := pure_ok h
    exact byte_taken h₁
  · split at h
    · obtain ⟨found, c₂, -, h⟩ := bind_ok h
      cases (pure_ok h).1
    · split at h
      · cases h
      · cases (pure_ok h).1

/-- A string has no more bytes than lie before its end in the line. -/
theorem bytes_column {c c' : Cursor} {found : List UInt8}
    (h : Text.bytes c = .ok (found, c')) : found.length ≤ c'.taken.column := by
  have hprogress : Progresses Text.piece := Consumes.progresses consumes_piece
  have key : ∀ (sofar : List UInt8) (c : Cursor), sofar.length ≤ c.position.column →
      iterate Text.piece sofar c = .ok (found, c') → found.length ≤ c'.taken.column := by
    intro sofar c
    induction sofar, c using iterate_induction hprogress with
    | _ sofar c ih =>
      intro hc h
      rcases iterate_ok hprogress h with hdone | ⟨sofar', c₁, hmore, h⟩
      · rw [piece_done_taken hdone]
        exact piece_column hdone hc
      · have hle := piece_column hmore hc
        simp only [gathered, List.length_reverse] at hle
        exact ih sofar' c₁ hmore hle h
  exact key [] c (Nat.zero_le _) h

end BackupReport.Json.Decoder
