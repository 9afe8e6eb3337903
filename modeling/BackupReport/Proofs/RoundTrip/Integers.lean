import BackupReport.Proofs.Grammar.Numerals
import BackupReport.Record.Json

/-!
# Written integers

An integer is written in decimal digits without leading zeros.  A row of such digits before a byte
that cannot continue a number is read as the number that it writes (`decodeUnsigned_digits`), so
that a signed word is read as itself, the least and the greatest included (`reads_counter`).
-/

namespace BackupReport.Json

open Decoder

/-! ## Digits -/

/-- The bytes of a number in decimal digits. -/
def digits (n : Nat) : List UInt8 := Utf8.encode (Nat.toDigits 10 n)

theorem toDigits_range {n : Nat} {x : Char} (h : x ∈ Nat.toDigits 10 n) :
    0x30 ≤ x.toNat ∧ x.toNat ≤ 0x39 :=
  Char.isDigit_iff_toNat.1 (Nat.isDigit_of_mem_toDigits (by decide) (by decide) h)

/-- Characters below U+0080 are written as one byte each. -/
theorem encode_map {cs : List Char} (h : ∀ x ∈ cs, x.toNat < 0x80) :
    Utf8.encode cs = cs.map fun x => UInt8.ofNat x.toNat := by
  induction cs with
  | nil => rfl
  | cons x later ih =>
    rw [encode_ascii (h x List.mem_cons_self), ih fun y hy => h y (List.mem_cons_of_mem _ hy)]
    rfl

theorem digits_eq (n : Nat) : digits n = (Nat.toDigits 10 n).map fun x => UInt8.ofNat x.toNat :=
  encode_map fun x hx => by have := (toDigits_range hx).2; omega

theorem isDigit_digits {n : Nat} {b : UInt8} (h : b ∈ digits n) : isDigit b = true := by
  rw [digits_eq] at h
  obtain ⟨x, hx, rfl⟩ := List.mem_map.1 h
  obtain ⟨hlow, hhigh⟩ := toDigits_range hx
  simp only [isDigit, Bool.and_eq_true, decide_eq_true_eq, UInt8.le_iff_toNat_le,
    Utf8.toNat_ofNat_of_lt (show x.toNat < 256 by omega)]
  exact ⟨hlow, hhigh⟩

/-- A number is written in one digit or more. -/
theorem digits_cons (n : Nat) :
    ∃ d ds, digits n = d :: ds ∧ isDigit d = true ∧ ∀ b ∈ ds, isDigit b = true := by
  have hne : digits n ≠ [] := by
    rw [digits_eq]
    simp
  obtain ⟨d, ds, hds⟩ := List.exists_cons_of_ne_nil hne
  have hall : ∀ b ∈ d :: ds, isDigit b = true := by
    intro b hb
    rw [← hds] at hb
    exact isDigit_digits hb
  exact ⟨d, ds, hds, List.forall_mem_cons.1 hall⟩

/-- Digits that are bytes have the value of the same digits as characters. -/
theorem foldl_digitValue {cs : List Char} (h : ∀ x ∈ cs, x.toNat ≤ 0x39) (m : Nat) :
    (cs.map fun x => UInt8.ofNat x.toNat).foldl (fun n b => n * 10 + digitValue b) m =
      Nat.ofDigitChars 10 cs m := by
  induction cs generalizing m with
  | nil => simp
  | cons x later ih =>
    have hx := h x List.mem_cons_self
    rw [List.map_cons, List.foldl_cons, ih fun y hy => h y (List.mem_cons_of_mem _ hy),
      Nat.ofDigitChars_cons, digitValue, Utf8.toNat_ofNat_of_lt (by omega), Nat.mul_comm m 10]
    rfl

/-- The digits of a number have that number as their value. -/
theorem digitsValue_digits (n : Nat) : digitsValue (digits n) = n := by
  rw [digits_eq, digitsValue, foldl_digitValue fun x hx => (toDigits_range hx).2,
    Nat.ofDigitChars_ten_toDigits]

/-- A number whose first digit is a zero has no other. -/
theorem toDigits_zero_cons {n : Nat} {later : List Char}
    (h : Nat.toDigits 10 n = '0' :: later) : later = [] := by
  induction n using Nat.strongRecOn generalizing later with
  | ind n ih =>
    by_cases hn : n < 10
    · rw [Nat.toDigits_of_lt_base hn] at h
      exact (List.cons.inj h).2.symm
    · rw [Nat.toDigits_of_base_le (by decide) (Nat.le_of_not_lt hn)] at h
      obtain ⟨x, ds, hds⟩ :=
        List.exists_cons_of_ne_nil (Nat.toDigits_ne_nil (n := n / 10) (b := 10))
      have hx : x = '0' := by
        rw [hds, List.cons_append] at h
        exact (List.cons.inj h).1
      subst hx
      have hnil := ih (n / 10) (by omega) hds
      -- then all but the last digit would write zero
      have hzero := Nat.ofDigitChars_ten_toDigits (n := n / 10)
      rw [hds, hnil] at hzero
      have : n / 10 = 0 := hzero.symm
      omega

theorem digits_zero_cons {n : Nat} {later : List UInt8} (h : digits n = 0x30 :: later) :
    later = [] := by
  rw [digits_eq] at h
  cases hds : Nat.toDigits 10 n with
  | nil => exact absurd hds Nat.toDigits_ne_nil
  | cons x ds =>
    have hrange := toDigits_range (n := n) (x := x) (by rw [hds]; exact List.mem_cons_self)
    rw [hds, List.map_cons] at h
    obtain ⟨hx, rfl⟩ := List.cons.inj h
    have hnat := congrArg UInt8.toNat hx
    rw [Utf8.toNat_ofNat_of_lt (by omega)] at hnat
    have hzero : x = '0' := Char.toNat_inj.1 hnat
    subst hzero
    rw [toDigits_zero_cons hds]
    rfl

/-! ## Numbers -/

variable {c : Cursor} {rest : List UInt8}

/-- A number is written as a numeral without point and exponent. -/
theorem unsigned_digits (negative : Bool) (n : Nat) :
    Numeral.Unsigned ⟨negative, digits n, none, none⟩ (digits n) := by
  obtain ⟨d, ds, hds, hd, hall⟩ := digits_cons n
  have hwhole : Numeral.Whole (digits n) := by
    rw [hds]
    by_cases hzero : d = 0x30
    · subst hzero
      have hnil : ds = [] := digits_zero_cons hds
      rw [hnil]
      exact .zero
    · exact .row hd hzero hall
  have hunsigned : (Numeral.mk negative (digits n) none none).Unsigned (digits n ++ ([] ++ [])) :=
    .intro hwhole .absent .absent
  rwa [List.append_nil, List.append_nil] at hunsigned

/-- A row of digits is read as a number behind its sign. -/
theorem decodeUnsigned_digits {negative : Bool} {n : Nat} {x : Number}
    (hx : (Numeral.mk negative (digits n) none none).number? = some x)
    (h : c.rest = digits n ++ rest) (hends : Ends rest) :
    ∃ c', Number.decodeUnsigned negative c = .ok (x, c') ∧ c'.rest = rest := by
  obtain ⟨c', hscan, hr'⟩ := Numeral.scan_ok (unsigned_digits negative n) .decoded negative
    (fun _ => rfl) hends.stops h
  refine ⟨c', ?_, hr'⟩
  unfold Number.decodeUnsigned
  rw [bind_of_ok hscan]
  simp only [hx]
  rfl

/-- An integer in the range of a signed word is read as itself. -/
theorem decode_integer {n : Int} (hlow : -(UInt64.size / 2) ≤ n) (hhigh : n < UInt64.size / 2)
    (h : c.rest = Utf8.encode (Pretty.integer n) ++ rest) (hends : Ends rest) :
    ∃ c', Number.decode c = .ok (.integer n, c') ∧ c'.rest = rest := by
  have hwords : UInt64.size = 18446744073709551616 := rfl
  rw [hwords] at hlow hhigh
  cases n with
  | ofNat n =>
    have hn : (n : Int) < (18446744073709551616 : Nat) / 2 := hhigh
    obtain ⟨d, ds, hds, hd, -⟩ := digits_cons n
    have hr : c.rest = d :: (ds ++ rest) := by
      rw [← List.cons_append, ← hds]
      exact h
    obtain ⟨c₁, hpeek, hr₁⟩ := peek_cons hr
    rw [← List.cons_append, ← hds] at hr₁
    have hnumber : (Numeral.mk false (digits n) none none).number? = some (.integer n) := by
      have hsize : n < UInt64.size := by
        rw [hwords]
        omega
      simp [Numeral.number?, Numeral.integer?, digitsValue_digits, hsize]
    obtain ⟨c₂, hdecode, hr₂⟩ := decodeUnsigned_digits hnumber hr₁ hends
    refine ⟨c₂, ?_, hr₂⟩
    have hminus : d ≠ 0x2D := by
      rintro rfl
      exact absurd hd (by decide)
    unfold Number.decode
    rw [bind_of_ok hpeek, if_neg (by simpa using hminus)]
    exact hdecode
  | negSucc n =>
    have hr : c.rest = 0x2D :: (digits (n + 1) ++ rest) := h
    obtain ⟨c₁, hpeek, hr₁⟩ := peek_cons hr
    have hnumber : (Numeral.mk true (digits (n + 1)) none none).number? =
        some (.integer (Int.negSucc n)) := by
      have hsize : n + 1 ≤ UInt64.size / 2 := by
        rw [hwords]
        omega
      simp [Numeral.number?, Numeral.integer?, digitsValue_digits, hsize, Int.negSucc_eq]
    obtain ⟨c₂, hdecode, hr₂⟩ := decodeUnsigned_digits hnumber
      (c := c₁.pass [0x2D] (digits (n + 1) ++ rest)) rfl hends
    refine ⟨c₂, ?_, hr₂⟩
    unfold Number.decode
    rw [bind_of_ok hpeek, if_pos rfl, bind_of_ok (eat_cons hr₁)]
    exact hdecode

/-- What announces an integer. -/
theorem integer_lead (n : Int) : ∃ b later, Utf8.encode (Pretty.integer n) = b :: later ∧
    (Lead.of b = .minus ∨ Lead.of b = .digit) := by
  cases n with
  | ofNat n =>
    obtain ⟨d, ds, hds, hd, -⟩ := digits_cons n
    exact ⟨d, ds, hds, .inr (lead_digit hd)⟩
  | negSucc n => exact ⟨0x2D, digits (n + 1), rfl, .inl (by decide)⟩

end BackupReport.Json

namespace BackupReport

open Json Json.Decoder

/-- A counter is read as itself, the least and the greatest word included. -/
theorem reads_counter (level : Nat) (n : Int64) :
    Reads signed (Pretty.value level (counterTree n)) n := by
  have htext : Pretty.value level (counterTree n) = Pretty.integer n.toInt := rfl
  rw [htext]
  obtain ⟨b, later, hb, hlead⟩ := integer_lead n.toInt
  refine ⟨⟨b, later, hb, ?_, ?_⟩, fun {c gaps rest} hgaps h hends => ?_⟩
  · rcases hlead with hl | hl <;> rw [hl] <;> decide
  · rcases hlead with hl | hl <;> rw [hl] <;> decide
  have hother : Lead.of b ≠ .other := by rcases hlead with hl | hl <;> rw [hl] <;> decide
  have hlow : -(UInt64.size / 2) ≤ n.toInt := n.le_toInt
  have hhigh : n.toInt < UInt64.size / 2 := n.toInt_lt
  rw [List.append_assoc, hb, List.cons_append] at h
  obtain ⟨c₁, hr₁, hon⟩ := onLead_eq hgaps h hother
  rw [← List.cons_append, ← hb] at hr₁
  obtain ⟨c₂, hdecode, hr₂⟩ := decode_integer hlow hhigh hr₁ hends
  have hsigned : Number.signed (.integer n.toInt) = .ok n := by
    simp only [Number.signed, if_pos hhigh, Int64.ofInt_toInt]
  refine ⟨c₂, ?_, hr₂⟩
  unfold signed number
  rw [hon]
  rcases hlead with hl | hl <;> rw [hl]
  · refine (bind_of_ok hdecode).trans ?_
    rw [hsigned]
    rfl
  · refine (bind_of_ok hdecode).trans ?_
    rw [hsigned]
    rfl

end BackupReport
