import BackupReport.Size
import BackupReport.Proofs.Size.Rounding
import Mathlib.Tactic.IntervalCases
import Mathlib.Tactic.Linarith

/-!
# The unit of a byte count

A unit is taken if the thousandfold of what is held stays below a number that depends on the unit
only (`limit`), so that a greater count never has a smaller unit (`unitPower_mono`).  A limit has
few digits, so that rounding does not carry the thousandfold down across it, nor up if the count
has been held exactly (`thousandfold_lt_limit_iff`).  In the unit that is taken a count makes at
least one thousand thousandths (`thousandths_ge`) and less than 1024 thousand (`thousandths_le`).
-/

namespace BackupReport.Size

/-! ## Limits -/

/-- What a thousandfold stays below in the unit `1024 ^ k`: 1023999 and a half of that unit. -/
def limit (k : Nat) : Nat := 2047999 * 2 ^ (10 * k - 1)

section Limits

variable {k j x n n' : Nat}

theorem pow_unit (hk : 1 ≤ k) : (1024 : Nat) ^ k = 2 * 2 ^ (10 * k - 1) := by
  rw [← Nat.pow_succ', show (1024 : Nat) = 2 ^ 10 from rfl, ← Nat.pow_mul]
  congr 1
  omega

theorem unit_pos (k : Nat) : 0 < 1024 ^ k := Nat.pow_pos (by decide)

theorem two_mul_limit (hk : 1 ≤ k) : 2 * limit k = 2047999 * 1024 ^ k := by
  rw [pow_unit hk, limit, Nat.mul_left_comm]

theorem representable_limit (k : Nat) : Representable (limit k) :=
  ⟨2047999, 10 * k - 1, by decide, rfl⟩

theorem limit_mono (h : j ≤ k) : limit j ≤ limit k :=
  Nat.mul_le_mul_left _ (Nat.pow_le_pow_right (by decide) (by omega))

/-- The test by which a unit is taken. -/
theorem roundDiv_lt_iff (hk : 1 ≤ k) :
    roundDiv .up x (1024 ^ k) < 1024000 ↔ x < limit k := by
  have hpos := unit_pos k
  have hbound : 1024000 * (2 * 1024 ^ k) = 2 * limit k + 1024 ^ k := by
    rw [two_mul_limit hk, ← Nat.succ_mul, ← Nat.mul_assoc]
  rw [roundDiv_up x hpos, Nat.div_lt_iff_lt_mul (Nat.mul_pos Nat.two_pos hpos), hbound,
    Nat.add_lt_add_iff_right, Nat.mul_lt_mul_left Nat.two_pos]

/-- Rounding does not carry a thousandfold down across a limit. -/
theorem lt_limit_of_nearest53 (h : nearest53 x 1 < limit k) : x < limit k :=
  lt_of_not_ge fun hge => absurd (le_nearest53 (representable_limit k) hge) (by omega)

/-- Below the limit of the fourth unit a thousandfold is rounded, but not up to the limit: a step is
128 at most, and the limit leaves the rest 112 on division by one thousand, so that no thousandfold
lies within half a step below it. -/
theorem nearest53_lt_limit_four (h : n * 1000 < limit 4) : nearest53 (n * 1000) 1 < limit 4 := by
  have hlimit : limit 4 = 1125899357086810112 := by decide
  have hstep : spacing (limit 4) = 128 := by decide +kernel
  have hspacing : spacing (n * 1000) ≤ 128 := hstep ▸ spacing_mono h.le
  have hround := nearest53_le_add (n * 1000)
  rw [hlimit] at h ⊢
  omega

/-- The thousandfold of a count that is held exactly is rounded on its own side of every limit. -/
theorem thousandfold_lt_limit_iff (hn : n ≤ 2 ^ 53) (hk : 1 ≤ k) :
    nearest53 (n * 1000) 1 < limit k ↔ n * 1000 < limit k := by
  refine ⟨lt_limit_of_nearest53, fun h => ?_⟩
  by_cases hsmall : k ≤ 3
  · -- the thousandfold has no more than 53 digits
    have hlimit : limit 3 < Nat.pow 2 53 := by decide
    have hexact := nearest53_one_of_lt ((h.trans_le (limit_mono hsmall)).trans hlimit)
    exact hexact.trans_lt h
  by_cases hfour : k = 4
  · subst hfour
    exact nearest53_lt_limit_four h
  · -- the limit lies far above
    have hrepresentable : Representable (1000 * 2 ^ 53) := ⟨1000, 53, by decide, rfl⟩
    have hlimit : 1000 * 2 ^ 53 < limit 5 := by decide
    have hround : nearest53 (n * 1000) 1 ≤ 1000 * 2 ^ 53 :=
      nearest53_le hrepresentable (by linarith)
    exact (hround.trans_lt hlimit).trans_le (limit_mono (by omega))

end Limits

/-! ## The unit that is taken -/

section Units

variable {k n n' : Nat}

/-- The units are tried in their order. -/
theorem unitPower_eq (n : Nat) : unitPower n =
    if nearest53 (n * 1000) 1 < limit 1 then 1
    else if nearest53 (n * 1000) 1 < limit 2 then 2
    else if nearest53 (n * 1000) 1 < limit 3 then 3
    else if nearest53 (n * 1000) 1 < limit 4 then 4
    else if nearest53 (n * 1000) 1 < limit 5 then 5
    else 6 := by
  have htest : ∀ j, 1 ≤ j →
      (roundDiv .up (nearest53 (n * 1000) 1) (Nat.pow 1024 j) < 1024000 ↔
        nearest53 (n * 1000) 1 < limit j) := by
    intro j hj
    rw [Nat.pow_eq]
    exact roundDiv_lt_iff hj
  unfold unitPower
  simp only [List.find?_cons, htest 1 (by decide), htest 2 (by decide), htest 3 (by decide),
    htest 4 (by decide), htest 5 (by decide)]
  split_ifs <;> simp [*]

theorem unitPower_pos (n : Nat) : 1 ≤ unitPower n := by
  rw [unitPower_eq]
  split_ifs <;> decide

theorem unitPower_le_six (n : Nat) : unitPower n ≤ 6 := by
  rw [unitPower_eq]
  split_ifs <;> decide

/-- The unit that is taken is the first one whose limit is kept. -/
theorem unitPower_le_iff (hk : 1 ≤ k) (hk' : k ≤ 5) :
    unitPower n ≤ k ↔ nearest53 (n * 1000) 1 < limit k := by
  have h₁ : limit 1 ≤ limit 2 := limit_mono (by decide)
  have h₂ : limit 2 ≤ limit 3 := limit_mono (by decide)
  have h₃ : limit 3 ≤ limit 4 := limit_mono (by decide)
  have h₄ : limit 4 ≤ limit 5 := limit_mono (by decide)
  rw [unitPower_eq]
  interval_cases k <;> split_ifs <;> omega

/-- A greater count has the same unit or a greater one. -/
theorem unitPower_mono (h : n ≤ n') : unitPower n ≤ unitPower n' := by
  by_cases hsix : unitPower n' = 6
  · rw [hsix]
    exact unitPower_le_six n
  · have hpos := unitPower_pos n'
    have hle := unitPower_le_six n'
    have hkept := (unitPower_le_iff (n := n') hpos (by omega)).1 le_rfl
    have hmono : nearest53 (n * 1000) 1 ≤ nearest53 (n' * 1000) 1 :=
      nearest53_mono (Nat.mul_le_mul_right _ h)
    exact (unitPower_le_iff hpos (by omega)).2 (hmono.trans_lt hkept)

/-- Every unit but the last keeps its limit. -/
theorem lt_limit_of_unitPower (h : unitPower n = k) (hk : k ≤ 5) : n * 1000 < limit k := by
  have hpos := unitPower_pos n
  exact lt_limit_of_nearest53 ((unitPower_le_iff (by omega) hk).1 h.le)

/-- Where a unit but the first is taken, the count makes more than 999 and a half thousandths of
it. -/
theorem lt_of_unitPower (h : unitPower n = k + 1) (hk : 1 ≤ k) :
    1999 * 1024 ^ (k + 1) < 2 * (n * 1000) := by
  have hk' := unitPower_le_six n
  have hpassed : ¬ nearest53 (n * 1000) 1 < limit k := by
    rw [← unitPower_le_iff hk (by omega)]
    omega
  by_contra hge
  -- the bound has few digits and lies below the limit that was not kept
  have hbound : 2 * (1999 * 2 ^ (10 * (k + 1) - 1)) = 1999 * 1024 ^ (k + 1) := by
    rw [pow_unit (Nat.le_add_left 1 k), Nat.mul_left_comm]
  have hround : nearest53 (n * 1000) 1 ≤ 1999 * 2 ^ (10 * (k + 1) - 1) :=
    nearest53_le ⟨1999, _, by decide, rfl⟩ (by omega)
  have hlt : 1999 * 2 ^ (10 * (k + 1) - 1) < limit k := by
    rw [limit, show 10 * (k + 1) - 1 = 10 + (10 * k - 1) by omega, Nat.pow_add, ← Nat.mul_assoc]
    exact Nat.mul_lt_mul_of_pos_right (by decide) (Nat.two_pow_pos _)
  omega

end Units

/-! ## Thousandths -/

/-- The thousandths of its unit that are written for what is held. -/
def thousandths (held : Nat) : Nat :=
  roundDiv .toEven (held * 1000) (1024 ^ unitPower held)

section Thousandths

variable {n n' : Nat}

theorem text_eq {bytes : UInt64} (h : 1024 ≤ bytes.toNat) :
    text bytes = decimals3 (thousandths (nearest53 bytes.toNat 1)) ++ " " ++
      unitName (unitPower (nearest53 bytes.toNat 1)) := by
  have hlt : ¬ bytes < 1024 := by
    rw [UInt64.lt_iff_toNat_lt]
    exact Nat.not_lt.2 h
  unfold text thousandths
  rw [if_neg hlt]
  dsimp only
  rw [Nat.pow_eq]

theorem thousandths_ge (h : 1024 ≤ n) : 1000 ≤ thousandths n := by
  have hunit := unit_pos (unitPower n)
  refine le_roundDiv .toEven hunit ?_
  obtain ⟨k, hk⟩ : ∃ k, unitPower n = k + 1 := Nat.exists_eq_add_one.2 (unitPower_pos n)
  rw [hk] at hunit ⊢
  by_cases hfirst : k = 0
  · subst hfirst
    omega
  · have := lt_of_unitPower hk (by omega)
    omega

theorem thousandths_le (h : n ≤ 2 ^ 64) :
    thousandths n ≤ 1023999 ∧ (unitPower n = 6 → thousandths n ≤ 16000) := by
  have hunit := unit_pos (unitPower n)
  by_cases hlast : unitPower n = 6
  · have hle : thousandths n ≤ 16000 := by
      refine roundDiv_le .toEven ?_
      rw [hlast]
      omega
    exact ⟨hle.trans (by decide), fun _ => hle⟩
  · refine ⟨roundDiv_le .toEven ?_, fun h => absurd h hlast⟩
    have hle := unitPower_le_six n
    have hlimit := lt_limit_of_unitPower (n := n) rfl (by omega)
    have := two_mul_limit (unitPower_pos n)
    linarith

/-- A greater count is written as the same size or a greater one. -/
theorem thousandths_mul_mono (hn : 1024 ≤ n) (h : n ≤ n') (hn' : n' ≤ 2 ^ 64) :
    thousandths n * 1024 ^ unitPower n ≤ thousandths n' * 1024 ^ unitPower n' := by
  have hunits := unitPower_mono h
  by_cases heq : unitPower n = unitPower n'
  · unfold thousandths
    rw [heq]
    exact Nat.mul_le_mul_right _ (roundDiv_mono .toEven _ (Nat.mul_le_mul_right _ h))
  · -- the greatest size in a unit is smaller than the least one in the next
    have hnext : unitPower n + 1 ≤ unitPower n' := by omega
    calc thousandths n * 1024 ^ unitPower n
        ≤ 1023999 * 1024 ^ unitPower n := Nat.mul_le_mul_right _ (thousandths_le (h.trans hn')).1
      _ ≤ 1000 * 1024 ^ (unitPower n + 1) := by
        rw [Nat.pow_succ]
        omega
      _ ≤ thousandths n' * 1024 ^ unitPower n' :=
        Nat.mul_le_mul (thousandths_ge (hn.trans h)) (Nat.pow_le_pow_right (by decide) hnext)

/-- What is written is off by one thousandth of the unit at most: by half of one from what is held,
and that by much less from the count itself. -/
theorem thousandths_accurate (h : n ≤ 2 ^ 64) :
    thousandths (nearest53 n 1) * 1024 ^ unitPower (nearest53 n 1) ≤
        n * 1000 + 1024 ^ unitPower (nearest53 n 1) ∧
      n * 1000 ≤ thousandths (nearest53 n 1) * 1024 ^ unitPower (nearest53 n 1) +
        1024 ^ unitPower (nearest53 n 1) := by
  obtain ⟨hheld, hheld'⟩ := nearest53_relative n
  have hsize : nearest53 n 1 ≤ 2 ^ 64 := nearest53_le (representable_pow 64) h
  generalize nearest53 n 1 = held at *
  have hlow := roundDiv_mul_le .toEven (held * 1000) (1024 ^ unitPower held)
  have hhigh := le_roundDiv_mul .toEven (held * 1000) (unit_pos (unitPower held))
  have hunit : held ≤ 1024 * 1024 ^ unitPower held := by
    by_cases hlast : unitPower held = 6
    · rw [hlast]
      omega
    · have hle := unitPower_le_six held
      have hlimit := lt_limit_of_unitPower (n := held) rfl (by omega)
      have := two_mul_limit (unitPower_pos held)
      linarith
  unfold thousandths
  constructor <;> linarith

end Thousandths

end BackupReport.Size
