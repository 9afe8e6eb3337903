import BackupReport.Proofs.Size.Amounts
import Mathlib.Data.Rat.Floor

/-!
# Counts that are held exactly

Up to `2 ^ 53` a count is held exactly, and its text is what exact arithmetic makes of it
(`text_exact`): the unit is the least one in which the count, taken to the nearest thousandth, stays
below 1024, and the numeral is the nearest one of three decimals.  Rounding on the way has no say in
either (`thousandfold_lt_limit_iff`).
-/

namespace BackupReport.Size

/-! ## Nearest numbers -/

/-- A whole number is nearest to a quotient; if another one is as near, it is the even one. -/
structure NearestEven (x : ℚ) (t : Nat) : Prop where
  near : |x - t| ≤ 1 / 2
  even : |x - t| = 1 / 2 → Even t

/-- A quotient is rounded to the nearest number. -/
theorem nearestEven_roundDiv (num : Nat) {den : Nat} (hden : 0 < den) :
    NearestEven (num / den) (roundDiv .toEven num den) := by
  have hpos : (0 : ℚ) < den := by exact_mod_cast hden
  have hdiff : (num / den : ℚ) - roundDiv .toEven num den =
      (num - roundDiv .toEven num den * den) / den := by
    rw [sub_div, mul_div_cancel_right₀ _ hpos.ne']
  constructor
  · have hlow : 2 * (roundDiv .toEven num den * den : ℚ) ≤ 2 * num + den := by
      exact_mod_cast roundDiv_mul_le .toEven num den
    have hhigh : (2 : ℚ) * num ≤ 2 * (roundDiv .toEven num den * den) + den := by
      exact_mod_cast le_roundDiv_mul .toEven num hden
    rw [hdiff, abs_le, div_le_iff₀ hpos, le_div_iff₀ hpos]
    constructor <;> linarith
  · intro h
    -- the distance is half a unit only if the rest is half of the divisor
    refine even_of_half ?_
    have hhalf : 2 * num = 2 * (roundDiv .toEven num den * den) + den ∨
        2 * num + den = 2 * (roundDiv .toEven num den * den) := by
      rw [hdiff, abs_eq (by norm_num), div_eq_iff hpos.ne', div_eq_iff hpos.ne'] at h
      refine h.imp (fun h => ?_) fun h => ?_
      · have hcast : (2 : ℚ) * num = 2 * (roundDiv .toEven num den * den) + den := by linarith
        exact_mod_cast hcast
      · have hcast : (2 : ℚ) * num + den = 2 * (roundDiv .toEven num den * den) := by linarith
        exact_mod_cast hcast
    have hnum := Nat.div_add_mod' num den
    have hlt := Nat.mod_lt num hden
    rcases roundDiv_cases .toEven num den with ⟨hr, -⟩ | ⟨hr, -⟩
    · rw [hr] at hhalf
      omega
    · rw [hr, Nat.add_mul] at hhalf
      omega

/-! ## Exact amounts -/

section Exact

variable {n k : Nat}

/-- A count in the unit `1024 ^ k`. -/
def inUnit (n k : Nat) : ℚ := n / 1024 ^ k

/-- An amount is what exact arithmetic makes of a count: its unit is the least one from KiB to EiB
in which the count stays below 1024 when it is taken to the nearest thousandth, and its numeral is
the nearest one in this unit. -/
structure Amount.Exact (n : Nat) (x : Amount) : Prop where
  unit : IsLeast {k | 1 ≤ k ∧ k ≤ 6 ∧ round (inUnit n k * 1000) < 1024000} x.power
  numeral : ∃ t : Nat, x.numeral = t / 1000 ∧ NearestEven (inUnit n x.power * 1000) t

/-- In exact arithmetic too a unit is taken if the thousandfold stays below its limit. -/
theorem round_lt_iff (hk : 1 ≤ k) :
    round (inUnit n k * 1000) < 1024000 ↔ n * 1000 < limit k := by
  have hpos : (0 : ℚ) < 1024 ^ k := by positivity
  have hlimit : (2 : ℚ) * limit k = 2047999 * 1024 ^ k := by exact_mod_cast two_mul_limit hk
  have hquotient : inUnit n k * 1000 = n * 1000 / 1024 ^ k := div_mul_eq_mul_div _ _ _
  have hhalf : ∀ x : ℚ, round x < 1024000 ↔ x < 2047999 / 2 := by
    intro x
    rw [round_eq, Int.floor_lt]
    norm_num
    constructor <;> intro h <;> linarith
  rw [hhalf, hquotient, div_lt_iff₀ hpos]
  have hcast : (n * 1000 < limit k) ↔ ((n : ℚ) * 1000 < limit k) := by norm_cast
  rw [hcast]
  constructor <;> intro h <;> linarith

theorem unit_amount (h : n ≤ 2 ^ 53) :
    IsLeast {k | 1 ≤ k ∧ k ≤ 6 ∧ round (inUnit n k * 1000) < 1024000} (unitPower n) := by
  have hpos := unitPower_pos n
  have hiff : ∀ {k}, 1 ≤ k → k ≤ 5 → (unitPower n ≤ k ↔ round (inUnit n k * 1000) < 1024000) := by
    intro k hk hk'
    rw [unitPower_le_iff hk hk', thousandfold_lt_limit_iff h hk, round_lt_iff hk]
  -- the fifth unit is large enough
  have hfive : unitPower n ≤ 5 := by
    rw [unitPower_le_iff (by decide) le_rfl, thousandfold_lt_limit_iff h (by decide)]
    have hlimit : 1000 * 2 ^ 53 < limit 5 := by decide
    linarith
  refine ⟨⟨hpos, unitPower_le_six n, (hiff hpos hfive).1 le_rfl⟩, fun k hk => ?_⟩
  obtain ⟨hk, hk', hround⟩ := hk
  by_cases hsix : k = 6
  · omega
  · exact (hiff hk (by omega)).2 hround

/-- A count from 1024 to `2 ^ 53` is written as the amount that exact arithmetic makes of it, for
the test by which a unit is taken comes out as in exact arithmetic. -/
theorem text_exact (n : UInt64) (hlow : 1024 ≤ n.toNat) (hhigh : n.toNat ≤ 2 ^ 53) :
    (∃ x : Amount, text n = x.text ∧ x.Exact n.toNat) ∧
    ∀ k, 1 ≤ k →
      (roundDiv .up (nearest53 (nearest53 n.toNat 1 * 1000) 1) (1024 ^ k) < 1024000 ↔
        round (inUnit n.toNat k * 1000) < 1024000) := by
  have hheld : nearest53 n.toNat 1 = n.toNat :=
    nearest53_eq ⟨n.toNat, 0, hhigh, (Nat.mul_one _).symm⟩
  refine ⟨⟨amount n.toNat, text_amount hlow, ?_, thousandths (nearest53 n.toNat 1),
    numeral_amount _, ?_⟩, fun k hk => ?_⟩
  · rw [power_amount, hheld]
    exact unit_amount hhigh
  · rw [power_amount, hheld]
    have hnearest := nearestEven_roundDiv (n.toNat * 1000) (unit_pos (unitPower n.toNat))
    have hquotient : inUnit n.toNat (unitPower n.toNat) * 1000 =
        ((n.toNat * 1000 : Nat) : ℚ) / ((1024 ^ unitPower n.toNat : Nat) : ℚ) := by
      push_cast
      exact div_mul_eq_mul_div _ _ _
    rw [hquotient]
    exact hnearest
  · rw [hheld, roundDiv_lt_iff hk, thousandfold_lt_limit_iff hhigh hk, round_lt_iff hk]

/-- The greatest count that is written in TiB: its thousandfold is not held exactly, and what is
held lies one step below the limit. -/
theorem text_exact_tebibytes :
    1024 ≤ (1125899357086810 : UInt64).toNat ∧ (1125899357086810 : UInt64).toNat ≤ 2 ^ 53 ∧
    nearest53 (1125899357086810 * 1000) 1 + 128 = limit 4 ∧
    text 1125899357086810 = "1023.999 TiB" ∧
    ∃ x : Amount, text 1125899357086810 = x.text ∧ x.Exact 1125899357086810 := by
  have hlow : 1024 ≤ (1125899357086810 : UInt64).toNat := by decide
  have hhigh : (1125899357086810 : UInt64).toNat ≤ 2 ^ 53 := by decide
  exact ⟨hlow, hhigh, by decide +kernel, by decide +kernel, (text_exact _ hlow hhigh).1⟩

end Exact

end BackupReport.Size
