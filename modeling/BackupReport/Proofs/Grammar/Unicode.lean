import BackupReport.Utf8

/-!
# Texts that were read

Reading bytes as a text loses nothing: the text is written as the very bytes that it was read from
(`encode_of_decode?`).  So every text is written in one way only.  The reading of a character that
takes more than one byte is followed from its first byte to its last (`Completes`).
-/

namespace BackupReport.Utf8

variable {b : UInt8} {c : Char} {u u' : Unfinished}

/-! ## From the first byte to the last -/

/-- Some bytes complete a character. -/
inductive Completes : Unfinished → List UInt8 → Char → Prop
  | last {u : Unfinished} {b : UInt8} {c : Char} : u.extend b = .character c → Completes u [b] c
  | more {u u' : Unfinished} {b : UInt8} {later : List UInt8} {c : Char} :
      u.extend b = .unfinished u' → Completes u' later c → Completes u (b :: later) c

theorem toNat_ofNat_of_valid {n : Nat} (h : n.isValidChar) : (Char.ofNat n).toNat = n := by
  unfold Char.ofNat
  rw [dif_pos h]
  exact UInt32.toNat_ofNatLT

/-- The last byte of a character adds its six bits. -/
theorem extend_character (h : u.extend b = .character c) :
    u.after = 0 ∧ u.low ≤ b.toNat ∧ b.toNat ≤ u.high ∧
      c = Char.ofNat (u.number * 0x40 + (b.toNat - 0x80)) := by
  obtain ⟨number, after, low, high⟩ := u
  simp only [Unfinished.extend] at h
  split at h
  · rename_i hrange
    cases after with
    | zero => exact ⟨rfl, hrange.1, hrange.2, (Outcome.character.inj h).symm⟩
    | succ after => cases h
  · cases h

/-- A byte that is not the last one adds its six bits. -/
theorem extend_unfinished (h : u.extend b = .unfinished u') :
    u.low ≤ b.toNat ∧ b.toNat ≤ u.high ∧ u.after = u'.after + 1 ∧
      u'.number = u.number * 0x40 + (b.toNat - 0x80) ∧ u'.low = 0x80 ∧ u'.high = 0xBF := by
  obtain ⟨number, after, low, high⟩ := u
  simp only [Unfinished.extend] at h
  split at h
  · rename_i hrange
    cases after with
    | zero => cases h
    | succ after =>
      obtain rfl := Outcome.unfinished.inj h
      exact ⟨hrange.1, hrange.2, rfl, rfl, rfl, rfl⟩
  · cases h

/-- The last byte of a character is all that completes it. -/
theorem completes_last {later : List UInt8} (h : Completes u later c) (hafter : u.after = 0) :
    ∃ b, later = [b] ∧ u.low ≤ b.toNat ∧ b.toNat ≤ u.high ∧
      c = Char.ofNat (u.number * 0x40 + (b.toNat - 0x80)) := by
  cases h with
  | last hextend =>
    obtain ⟨-, hlow, hhigh, hc⟩ := extend_character hextend
    exact ⟨_, rfl, hlow, hhigh, hc⟩
  | more hextend =>
    obtain ⟨-, -, hmore, -⟩ := extend_unfinished hextend
    omega

/-- Before the last byte there is one byte more. -/
theorem completes_more {later : List UInt8} {after : Nat} (h : Completes u later c)
    (hafter : u.after = after + 1) :
    ∃ b u' rest, later = b :: rest ∧ u.low ≤ b.toNat ∧ b.toNat ≤ u.high ∧ u'.after = after ∧
      u'.number = u.number * 0x40 + (b.toNat - 0x80) ∧ u'.low = 0x80 ∧ u'.high = 0xBF ∧
      Completes u' rest c := by
  cases h with
  | last hextend =>
    obtain ⟨hlast, -⟩ := extend_character hextend
    omega
  | more hextend hlater =>
    obtain ⟨hlow, hhigh, hmore, hnumber, hrange⟩ := extend_unfinished hextend
    exact ⟨_, _, _, rfl, hlow, hhigh, by omega, hnumber, hrange.1, hrange.2, hlater⟩

/-- What the first of several bytes says: how many follow, and in which range the next one lies. -/
inductive Opens (n : Nat) (u : Unfinished) : Prop
  | two : 0xC2 ≤ n → n < 0xE0 → u.number = n - 0xC0 → u.after = 0 →
      (0x80 ≤ u.low ∧ u.high ≤ 0xBF) → Opens n u
  | three : 0xE0 ≤ n → n < 0xF0 → u.number = n - 0xE0 → u.after = 1 →
      (0x80 ≤ u.low ∧ u.high ≤ 0xBF) → (n = 0xE0 → 0xA0 ≤ u.low) → (n = 0xED → u.high ≤ 0x9F) →
      Opens n u
  | four : 0xF0 ≤ n → n ≤ 0xF4 → u.number = n - 0xF0 → u.after = 2 →
      (0x80 ≤ u.low ∧ u.high ≤ 0xBF) → (n = 0xF0 → 0x90 ≤ u.low) → (n = 0xF4 → u.high ≤ 0x8F) →
      Opens n u

theorem lead_unfinished (h : lead b = .unfinished u) : Opens b.toNat u := by
  unfold lead at h
  generalize b.toNat = n at h
  dsimp only at h
  split at h
  · cases h
  split at h
  · cases h
  split at h
  · obtain rfl := Outcome.unfinished.inj h
    exact .two (by omega) (by omega) rfl rfl (by simp)
  split at h
  · obtain rfl := Outcome.unfinished.inj h
    exact .three (by omega) (by omega) (by simp_all) rfl (by simp) (by simp) (by omega)
  split at h
  · obtain rfl := Outcome.unfinished.inj h
    exact .three (by omega) (by omega) (by simp_all) rfl (by simp) (by omega) (by simp)
  split at h
  · obtain rfl := Outcome.unfinished.inj h
    exact .three (by omega) (by omega) rfl rfl (by simp) (by omega) (by omega)
  split at h
  · obtain rfl := Outcome.unfinished.inj h
    exact .four (by omega) (by omega) (by simp_all) rfl (by simp) (by simp) (by omega)
  split at h
  · obtain rfl := Outcome.unfinished.inj h
    exact .four (by omega) (by omega) rfl rfl (by simp) (by omega) (by omega)
  split at h
  · obtain rfl := Outcome.unfinished.inj h
    exact .four (by omega) (by omega) (by simp_all) rfl (by simp) (by omega) (by simp)
  · cases h

/-- A character that is read from one byte is written as that byte. -/
theorem encodeChar_of_lead (h : lead b = .character c) : encodeChar c = [b] := by
  unfold lead at h
  dsimp only at h
  split at h
  · rename_i hascii
    cases h
    unfold encodeChar
    rw [toNat_ofNat_of_valid (.inl (by omega)), if_pos hascii, UInt8.ofNat_toNat]
  · -- every other first byte is malformed or leaves the character unfinished
    repeat' (split at h; cases h)
    cases h

theorem encodeChar_of_completes {later : List UInt8} (hlead : lead b = .unfinished u)
    (h : Completes u later c) : encodeChar c = b :: later := by
  have hbyte : ∀ {b : UInt8} {n : Nat}, n = b.toNat → UInt8.ofNat n = b := by
    rintro b n rfl
    exact UInt8.ofNat_toNat
  cases lead_unfinished hlead with
  | two hlow hhigh hnumber hafter hrange =>
    obtain ⟨b₂, rfl, hlow₂, hhigh₂, hc⟩ := completes_last h hafter
    rw [hc, hnumber]
    unfold encodeChar
    rw [toNat_ofNat_of_valid (.inl (by omega)), if_neg (by omega), if_pos (by omega),
      hbyte (b := b) (by omega), hbyte (b := b₂) (by omega)]
  | three hlow hhigh hnumber hafter hrange hfirst hlast =>
    obtain ⟨b₂, u₂, later, rfl, hlow₂, hhigh₂, hafter₂, hnumber₂, hl, hh, h⟩ :=
      completes_more h hafter
    obtain ⟨b₃, rfl, hlow₃, hhigh₃, hc⟩ := completes_last h hafter₂
    rw [hl] at hlow₃
    rw [hh] at hhigh₃
    rw [hc, hnumber₂, hnumber]
    -- neither a surrogate nor short enough for two bytes
    have hvalid :
        ((b.toNat - 0xE0) * 0x40 + (b₂.toNat - 0x80)) * 0x40 + (b₃.toNat - 0x80) < 0xD800 ∨
        0xDFFF < ((b.toNat - 0xE0) * 0x40 + (b₂.toNat - 0x80)) * 0x40 + (b₃.toNat - 0x80) ∧
        ((b.toNat - 0xE0) * 0x40 + (b₂.toNat - 0x80)) * 0x40 + (b₃.toNat - 0x80) < 0x110000 := by
      omega
    unfold encodeChar
    rw [toNat_ofNat_of_valid hvalid, if_neg (by omega), if_neg (by omega), if_pos (by omega),
      hbyte (b := b) (by omega), hbyte (b := b₂) (by omega), hbyte (b := b₃) (by omega)]
  | four hlow hhigh hnumber hafter hrange hfirst hlast =>
    obtain ⟨b₂, u₂, later, rfl, hlow₂, hhigh₂, hafter₂, hnumber₂, hl, hh, h⟩ :=
      completes_more h hafter
    obtain ⟨b₃, u₃, later, rfl, hlow₃, hhigh₃, hafter₃, hnumber₃, hl₃, hh₃, h⟩ :=
      completes_more h hafter₂
    obtain ⟨b₄, rfl, hlow₄, hhigh₄, hc⟩ := completes_last h hafter₃
    rw [hl] at hlow₃
    rw [hh] at hhigh₃
    rw [hl₃] at hlow₄
    rw [hh₃] at hhigh₄
    rw [hc, hnumber₃, hnumber₂, hnumber]
    unfold encodeChar
    rw [toNat_ofNat_of_valid (.inr (by omega)), if_neg (by omega), if_neg (by omega),
      if_neg (by omega), hbyte (b := b) (by omega), hbyte (b := b₂) (by omega),
      hbyte (b := b₃) (by omega), hbyte (b := b₄) (by omega)]

/-! ## Whole texts -/

/-- Where nothing is malformed, a character that was started is completed. -/
theorem scanFrom_some {rest : List UInt8}
    (h : (scanFrom (some u) rest).all Option.isSome = true) :
    ∃ c later rest', rest = later ++ rest' ∧ Completes u later c ∧
      scanFrom (some u) rest = some c :: scanFrom none rest' := by
  induction rest generalizing u with
  | nil => cases h
  | cons b rest ih =>
    rw [scanFrom] at h ⊢
    cases hextend : u.extend b with
    | character c => exact ⟨c, [b], rest, rfl, .last hextend, rfl⟩
    | unfinished u' =>
      simp only [hextend] at h
      obtain ⟨c, later, rest', rfl, hlater, hscan⟩ := ih h
      exact ⟨c, b :: later, rest', rfl, .more hextend hlater, hscan⟩
    | malformed =>
      simp only [hextend] at h
      split at h <;> cases h

/-- A character that is found is written in front of the later ones. -/
theorem encode_found (c : Char) (found : List (Option Char)) :
    encode ((some c :: found).filterMap id) = encodeChar c ++ encode (found.filterMap id) := rfl

/-- The characters of a byte string that has nothing malformed are written as this string. -/
theorem encode_of_scan {bytes : List UInt8} (h : (scan bytes).all Option.isSome = true) :
    encode ((scan bytes).filterMap id) = bytes := by
  unfold scan at h ⊢
  induction hn : bytes.length using Nat.strongRecOn generalizing bytes with
  | ind n ih =>
    cases bytes with
    | nil => rfl
    | cons b rest =>
      rw [scanFrom] at h ⊢
      cases hlead : lead b with
      | character c =>
        simp only [hlead, List.all_cons, Option.isSome_some, Bool.true_and] at h
        have hrest := ih rest.length (by simp [← hn]) h rfl
        rw [encode_found, encodeChar_of_lead hlead, hrest]
        rfl
      | unfinished u =>
        simp only [hlead] at h ⊢
        obtain ⟨c, later, rest', rfl, hlater, hscan⟩ := scanFrom_some h
        rw [hscan] at h ⊢
        simp only [List.all_cons, Option.isSome_some, Bool.true_and] at h
        have hlt : rest'.length < n := by
          simp only [← hn, List.length_cons, List.length_append]
          omega
        have hrest := ih rest'.length hlt h rfl
        rw [encode_found, encodeChar_of_completes hlead hlater, hrest]
        rfl
      | malformed =>
        simp only [hlead] at h
        cases h

/-- What is read as a text is what this text is written as. -/
theorem encode_of_decode? {bytes : List UInt8} {cs : List Char} (h : decode? bytes = some cs) :
    encode cs = bytes := by
  unfold decode? at h
  dsimp only at h
  split at h
  · rename_i hall
    cases h
    exact encode_of_scan hall
  · cases h

end BackupReport.Utf8
