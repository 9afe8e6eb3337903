import BackupReport.Proofs.RoundTrip.Scalars

/-!
# Written strings

A string is written with escapes for the quote, the backslash and the control characters, and with
every other character as it is.  One character at a time, what is written is read as the bytes of
that character (`iterate_escape`), so that a string of any characters is read as itself
(`reads_string`).
-/

namespace BackupReport.Json

open Decoder

variable {α : Type}

namespace Text

variable {c : Cursor} {rest sofar : List UInt8}

theorem byte_cons {b : UInt8} (h : c.rest = b :: rest) : byte c = .ok (b, c.pass [b] rest) :=
  bind_of_ok (next_cons h)

/-- To read a piece of a string and to go on is to go on with what the piece stands for. -/
theorem iterate_piece {sofar' : List UInt8} {c' : Cursor}
    (h : piece sofar c = .ok (.more sofar', c')) :
    iterate piece sofar c = iterate piece sofar' c' := by
  rw [iterate_eq (Consumes.progresses consumes_piece)]
  exact bind_of_ok h

/-- A string ends with the quote that closes it. -/
theorem iterate_closed (sofar : List UInt8) (h : c.rest = 0x22 :: rest) :
    iterate piece sofar c = .ok (sofar.reverse, c.pass [0x22] rest) := by
  refine iterate_done (Consumes.progresses consumes_piece) ?_
  unfold piece
  rw [bind_of_ok (byte_cons h), if_pos rfl]
  rfl

/-! ## Characters that are written as they are -/

/-- A byte of a string that stands for itself. -/
def Plain (b : UInt8) : Prop := 0x20 ≤ b.toNat ∧ b.toNat ≠ 0x22 ∧ b.toNat ≠ 0x5C

instance : DecidablePred Plain := fun b =>
  inferInstanceAs (Decidable (0x20 ≤ b.toNat ∧ b.toNat ≠ 0x22 ∧ b.toNat ≠ 0x5C))

theorem piece_plain {b : UInt8} (hb : Plain b) (h : c.rest = b :: rest) :
    piece sofar c = .ok (.more (b :: sofar), c.pass [b] rest) := by
  obtain ⟨hcontrol, hquote, hslash⟩ := hb
  have hlt : ¬ b < 0x20 := by
    rw [UInt8.lt_iff_toNat_lt]
    exact Nat.not_lt.2 hcontrol
  unfold piece
  rw [bind_of_ok (byte_cons h), if_neg (by rintro rfl; exact hquote rfl),
    if_neg (by rintro rfl; exact hslash rfl), if_neg hlt]
  rfl

theorem iterate_plain {bytes : List UInt8} (hplain : ∀ b ∈ bytes, Plain b)
    (h : c.rest = bytes ++ rest) :
    ∃ c', iterate piece sofar c = iterate piece (bytes.reverse ++ sofar) c' ∧ c'.rest = rest := by
  induction bytes generalizing sofar c with
  | nil => exact ⟨c, rfl, h⟩
  | cons b later ih =>
    rw [List.cons_append] at h
    obtain ⟨c', hrun, hr⟩ := ih (c := c.pass [b] (later ++ rest))
      (fun b' hb' => hplain b' (List.mem_cons_of_mem _ hb')) rfl
    refine ⟨c', ?_, hr⟩
    rw [iterate_piece (piece_plain (hplain b List.mem_cons_self) h), hrun, List.reverse_cons,
      List.append_assoc]
    rfl

/-- The bytes of a character that needs no escape stand for themselves. -/
theorem encodeChar_plain {x : Char} (hcontrol : 0x20 ≤ x.toNat) (hquote : x.toNat ≠ 0x22)
    (hslash : x.toNat ≠ 0x5C) : ∀ b ∈ Utf8.encodeChar x, Plain b := by
  have hx := Utf8.toNat_range x
  have hlater : ∀ n, 0x80 ≤ n → n < 256 → Plain (UInt8.ofNat n) := by
    intro n hlow hhigh
    unfold Plain
    rw [Utf8.toNat_ofNat_of_lt hhigh]
    omega
  intro b hb
  unfold Utf8.encodeChar at hb
  generalize x.toNat = n at hx hb hcontrol hquote hslash
  dsimp only at hb
  split at hb
  · rw [List.mem_singleton.1 hb]
    unfold Plain
    rw [Utf8.toNat_ofNat_of_lt (by omega)]
    exact ⟨hcontrol, hquote, hslash⟩
  · split at hb
    · simp only [List.mem_cons, List.not_mem_nil, or_false] at hb
      rcases hb with rfl | rfl <;> exact hlater _ (by omega) (by omega)
    · split at hb
      · simp only [List.mem_cons, List.not_mem_nil, or_false] at hb
        rcases hb with rfl | rfl | rfl <;> exact hlater _ (by omega) (by omega)
      · simp only [List.mem_cons, List.not_mem_nil, or_false] at hb
        rcases hb with rfl | rfl | rfl | rfl <;> exact hlater _ (by omega) (by omega)

/-! ## Characters that are written as escapes -/

theorem iterate_escaped {found : List UInt8} {c' : Cursor} (h : c.rest = 0x5C :: rest)
    (hescape : escape (c.pass [0x5C] rest) = .ok (found, c')) :
    iterate piece sofar c = iterate piece (found.reverse ++ sofar) c' := by
  refine iterate_piece ?_
  unfold piece
  rw [bind_of_ok (byte_cons h), if_neg (by decide), if_pos rfl]
  exact bind_of_ok hescape

/-- An escape by letter stands for one byte. -/
theorem iterate_lettered (sofar : List UInt8) {letter b : UInt8} (hb : lettered? letter = some b)
    (h : c.rest = 0x5C :: letter :: rest) :
    ∃ c', iterate piece sofar c = iterate piece (b :: sofar) c' ∧ c'.rest = rest := by
  have hescape : escape (c.pass [0x5C] (letter :: rest)) =
      .ok ([b], (c.pass [0x5C] (letter :: rest)).pass [letter] rest) := by
    unfold escape
    rw [bind_of_ok (byte_cons rfl)]
    simp only [hb]
    rfl
  exact ⟨_, iterate_escaped h hescape, rfl⟩

/-- An escape by number stands for the bytes of a character. -/
theorem escape_numbered {x : Char} {c' : Cursor} (h : c.rest = 0x75 :: rest)
    (hnumbered : numbered (c.pass [0x75] rest) = .ok (x, c')) :
    escape c = .ok (Utf8.encodeChar x, c') := by
  unfold escape
  rw [bind_of_ok (byte_cons h)]
  simp only [show lettered? 0x75 = none by decide, if_true, ← bind_pure_comp]
  exact bind_of_ok hnumbered

theorem codeUnit_run {b₁ b₂ b₃ b₄ : UInt8} {unit : Nat}
    (hunit : unitOfHex? b₁ b₂ b₃ b₄ = some unit) (h : c.rest = b₁ :: b₂ :: b₃ :: b₄ :: rest) :
    ∃ c', codeUnit c = .ok (unit, c') ∧ c'.rest = rest := by
  unfold codeUnit
  rw [bind_of_ok (byte_cons h), bind_of_ok (byte_cons rfl), bind_of_ok (byte_cons rfl),
    bind_of_ok (byte_cons rfl)]
  simp only [hunit]
  exact ⟨_, rfl, rfl⟩

/-- The number of a control character is read back from its four digits. -/
theorem unitOfHex?_control : ∀ n : Fin 0x20,
    unitOfHex? 0x30 0x30 (UInt8.ofNat (Nat.digitChar (n / 16)).toNat)
      (UInt8.ofNat (Nat.digitChar (n % 16)).toNat) = some n.val := by decide

theorem digitChar_ascii (n : Nat) (h : n < 16) : (Nat.digitChar n).toNat < 0x80 := by
  have hall : ∀ d : Fin 16, (Nat.digitChar d).toNat < 0x80 := by decide
  exact hall ⟨n, h⟩

/-- An escape by number stands for the bytes of its character. -/
theorem iterate_numbered {x : Char} (hx : x.toNat < 0x20)
    (h : c.rest = 0x5C :: 0x75 :: 0x30 :: 0x30 ::
      UInt8.ofNat (Nat.digitChar (x.toNat / 16)).toNat ::
      UInt8.ofNat (Nat.digitChar (x.toNat % 16)).toNat :: rest) :
    ∃ c', iterate piece sofar c = iterate piece ((Utf8.encodeChar x).reverse ++ sofar) c' ∧
      c'.rest = rest := by
  have hlow : isLowSurrogate x.toNat = false := by
    simp only [isLowSurrogate, Bool.and_eq_false_iff, decide_eq_false_iff_not]
    omega
  have hhigh : isHighSurrogate x.toNat = false := by
    simp only [isHighSurrogate, Bool.and_eq_false_iff, decide_eq_false_iff_not]
    omega
  generalize htail : (0x30 :: 0x30 :: UInt8.ofNat (Nat.digitChar (x.toNat / 16)).toNat ::
    UInt8.ofNat (Nat.digitChar (x.toNat % 16)).toNat :: rest : List UInt8) = tail at h
  obtain ⟨c', hunit, hr⟩ := codeUnit_run (c := (c.pass [0x5C] (0x75 :: tail)).pass [0x75] tail)
    (unitOfHex?_control ⟨x.toNat, hx⟩) htail.symm
  have hnumbered : numbered ((c.pass [0x5C] (0x75 :: tail)).pass [0x75] tail) = .ok (x, c') := by
    unfold numbered
    rw [bind_of_ok hunit]
    simp only [hlow, hhigh, Bool.false_eq_true, if_false, Char.ofNat_toNat]
    rfl
  exact ⟨c', iterate_escaped h (escape_numbered rfl hnumbered), hr⟩

/-! ## Strings -/

/-- What a character is written as is read as its bytes. -/
theorem iterate_escape (sofar : List UInt8) (x : Char)
    (h : c.rest = Utf8.encode (Pretty.escape x) ++ rest) :
    ∃ c', iterate piece sofar c = iterate piece ((Utf8.encodeChar x).reverse ++ sofar) c' ∧
      c'.rest = rest := by
  unfold Pretty.escape at h
  split at h
  · subst x; exact iterate_lettered sofar (b := 0x22) (by decide) h
  split at h
  · subst x; exact iterate_lettered sofar (b := 0x5C) (by decide) h
  split at h
  · subst x; exact iterate_lettered sofar (b := 0x08) (by decide) h
  split at h
  · subst x; exact iterate_lettered sofar (b := 0x0C) (by decide) h
  split at h
  · subst x; exact iterate_lettered sofar (b := 0x0A) (by decide) h
  split at h
  · subst x; exact iterate_lettered sofar (b := 0x0D) (by decide) h
  split at h
  · subst x; exact iterate_lettered sofar (b := 0x09) (by decide) h
  rename_i hquote hslash _ _ _ _ _
  split at h
  · rename_i hcontrol
    have hhigh := digitChar_ascii (x.toNat / 16) (by omega)
    have hlow := digitChar_ascii (x.toNat % 16) (by omega)
    refine iterate_numbered hcontrol (h.trans ?_)
    change 0x5C :: 0x75 :: 0x30 :: 0x30 :: (Utf8.encode [Nat.digitChar (x.toNat / 16),
      Nat.digitChar (x.toNat % 16)] ++ rest) = _
    rw [encode_ascii hhigh, encode_ascii hlow]
    rfl
  · rename_i hcontrol
    rw [encode_cons, List.append_assoc] at h
    refine iterate_plain (encodeChar_plain (Nat.not_lt.1 hcontrol) ?_ ?_) h
    · exact fun hx => hquote (Char.toNat_inj.1 hx)
    · exact fun hx => hslash (Char.toNat_inj.1 hx)

theorem iterate_escapes (sofar : List UInt8) (cs : List Char)
    (h : c.rest = Utf8.encode (cs.flatMap Pretty.escape) ++ rest) :
    ∃ c', iterate piece sofar c = iterate piece ((Utf8.encode cs).reverse ++ sofar) c' ∧
      c'.rest = rest := by
  induction cs generalizing sofar c with
  | nil => exact ⟨c, rfl, h⟩
  | cons x later ih =>
    rw [List.flatMap_cons, encode_append, List.append_assoc] at h
    obtain ⟨c₁, hx, hr₁⟩ := iterate_escape sofar x h
    obtain ⟨c', hlater, hr'⟩ := ih _ hr₁
    refine ⟨c', ?_, hr'⟩
    rw [hx, hlater, encode_cons, List.reverse_append, List.append_assoc]

/-- A string is read back from what stands between its quotes. -/
theorem decode_written (s : String)
    (h : c.rest = Utf8.encode (s.toList.flatMap Pretty.escape) ++ 0x22 :: rest) :
    ∃ c', decode c = .ok (s, c') ∧ c'.rest = rest := by
  obtain ⟨c₁, hrun, hr₁⟩ := iterate_escapes [] s.toList h
  have hbytes : bytes c = .ok (Utf8.encode s.toList, c₁.pass [0x22] rest) := by
    unfold bytes
    rw [hrun, iterate_closed _ hr₁, List.append_nil, List.reverse_reverse]
  refine ⟨c₁.pass [0x22] rest, ?_, rfl⟩
  unfold decode
  rw [bind_of_ok hbytes]
  simp only [Utf8.decode?_encode, String.ofList_toList]
  rfl

end Text

/-- A string stands between quotes. -/
theorem encode_string (s : String) : Utf8.encode (Pretty.string s) =
    0x22 :: (Utf8.encode (s.toList.flatMap Pretty.escape) ++ [0x22]) := by
  rw [Pretty.string, List.cons_append, encode_ascii (by decide), encode_append]
  rfl

theorem reads_string (level : Nat) (s : String) :
    Reads Json.string (Pretty.value level (.string s)) s := by
  refine .behind_lead (encode_string s) (by decide) (by decide) rfl fun h _ => ?_
  rw [List.append_assoc] at h
  exact Text.decode_written s h

end BackupReport.Json
