import BackupReport.Rounding
import Mathlib.Algebra.Order.Ring.Nat

/-!
# Rounded numbers

What is known of the two roundings without looking into them: a rounded quotient is off by half a
unit at most (`roundDiv_mul_le`, `le_roundDiv_mul`) and keeps the order (`roundDiv_mono`).  The
numbers of 53 significant digits are left as they are, and nothing is rounded across one of them
(`le_nearest53`, `nearest53_le`), so that this rounding keeps the order too (`nearest53_mono`).
-/

namespace BackupReport

/-! ## Quotients -/

section Quotients

variable {tie : Tie} {num num' den k : Nat}

/-- A quotient is rounded down if what remains is at most half of the divisor, and up if it is at
least half. -/
theorem roundDiv_cases (tie : Tie) (num den : Nat) :
    (roundDiv tie num den = num / den ∧ 2 * (num % den) ≤ den) ∨
      (roundDiv tie num den = num / den + 1 ∧ den ≤ 2 * (num % den)) := by
  unfold roundDiv
  dsimp only
  split
  · exact .inl ⟨rfl, by omega⟩
  split
  · exact .inr ⟨rfl, by omega⟩
  cases tie with
  | up => exact .inr ⟨rfl, by omega⟩
  | toEven =>
    -- the tie goes down from an even number and up from an odd one
    rcases Nat.mod_two_eq_zero_or_one (num / den) with h | h
    · exact .inl ⟨by dsimp only; omega, by omega⟩
    · exact .inr ⟨by dsimp only; omega, by omega⟩

theorem roundDiv_mul_le (tie : Tie) (num den : Nat) :
    2 * (roundDiv tie num den * den) ≤ 2 * num + den := by
  have hnum := Nat.div_add_mod' num den
  rcases roundDiv_cases tie num den with ⟨h, hrest⟩ | ⟨h, hrest⟩
  · rw [h]
    omega
  · rw [h, Nat.add_mul]
    omega

theorem le_roundDiv_mul (tie : Tie) (num : Nat) (hden : 0 < den) :
    2 * num ≤ 2 * (roundDiv tie num den * den) + den := by
  have hnum := Nat.div_add_mod' num den
  have hlt := Nat.mod_lt num hden
  rcases roundDiv_cases tie num den with ⟨h, hrest⟩ | ⟨h, hrest⟩
  · rw [h]
    omega
  · rw [h, Nat.add_mul]
    omega

/-- A quotient that lies half way between two whole numbers goes to the even one. -/
theorem even_of_half (h : 2 * (num % den) = den) : Even (roundDiv .toEven num den) := by
  unfold roundDiv
  dsimp only
  rw [if_neg (by omega), if_neg (by omega), Nat.even_iff]
  omega

/-- Rounding half way up is division of what has been raised by half a unit. -/
theorem roundDiv_up (num : Nat) (hden : 0 < den) :
    roundDiv .up num den = (2 * num + den) / (2 * den) := by
  have hnum := Nat.div_add_mod' num den
  have hlt := Nat.mod_lt num hden
  unfold roundDiv
  dsimp only
  split
  · refine (Nat.div_eq_of_lt_le ?_ ?_).symm
    · rw [Nat.mul_left_comm]
      omega
    · rw [Nat.mul_left_comm, Nat.add_mul]
      omega
  split
  all_goals
    refine (Nat.div_eq_of_lt_le ?_ ?_).symm
    · rw [Nat.mul_left_comm, Nat.add_mul]
      omega
    · rw [Nat.mul_left_comm, Nat.add_mul, Nat.add_mul]
      omega

/-- What lies less than half a unit below a number is not rounded to a smaller one. -/
theorem le_roundDiv (tie : Tie) (hden : 0 < den) (h : 2 * k * den < 2 * num + den) :
    k ≤ roundDiv tie num den := by
  have hle := le_roundDiv_mul tie num hden
  have hmul : 2 * k * den < (2 * roundDiv tie num den + 2) * den := by
    rw [Nat.add_mul, Nat.mul_assoc 2 (roundDiv tie num den)]
    omega
  have := Nat.lt_of_mul_lt_mul_right hmul
  omega

/-- What lies less than half a unit above a number is not rounded to a greater one. -/
theorem roundDiv_le (tie : Tie) (h : 2 * num < 2 * k * den + den) : roundDiv tie num den ≤ k := by
  have hle := roundDiv_mul_le tie num den
  have hmul : 2 * roundDiv tie num den * den < (2 * k + 2) * den := by
    rw [Nat.add_mul, Nat.mul_assoc 2 (roundDiv tie num den)]
    omega
  have := Nat.lt_of_mul_lt_mul_right hmul
  omega

theorem roundDiv_mono (tie : Tie) (den : Nat) (h : num ≤ num') :
    roundDiv tie num den ≤ roundDiv tie num' den := by
  have hdiv : num / den ≤ num' / den := Nat.div_le_div_right h
  by_cases heq : num / den = num' / den
  · -- of two quotients with one whole part the larger has the larger rest
    have hnum := Nat.div_add_mod' num den
    have hnum' := Nat.div_add_mod' num' den
    have hmod : num % den ≤ num' % den := by
      rw [heq] at hnum
      omega
    unfold roundDiv
    dsimp only
    rw [heq]
    cases tie <;> dsimp only <;> split_ifs <;> omega
  · rcases roundDiv_cases tie num den with ⟨hr, -⟩ | ⟨hr, -⟩ <;>
      rcases roundDiv_cases tie num' den with ⟨hr', -⟩ | ⟨hr', -⟩ <;> omega

end Quotients

/-! ## Numbers of 53 digits -/

/-- A number of at most 53 significant binary digits. -/
def Representable (g : Nat) : Prop := ∃ m e : Nat, m ≤ 2 ^ 53 ∧ g = m * 2 ^ e

section Digits

variable {n n' g : Nat}

theorem representable_pow (e : Nat) : Representable (2 ^ e) :=
  ⟨1, e, Nat.one_le_two_pow, (Nat.one_mul _).symm⟩

theorem spacing_eq (n : Nat) : spacing n = 2 ^ (n.log2 - 52) := Nat.pow_eq

theorem spacing_pos (n : Nat) : 0 < spacing n := by
  rw [spacing_eq]
  exact Nat.two_pow_pos _

theorem nearest53_one (n : Nat) :
    nearest53 n 1 = roundDiv .toEven n (spacing n) * spacing n := by
  simp only [nearest53, Nat.div_one, Nat.one_mul]

/-- A number of 53 digits is a whole number of the steps in which smaller numbers are rounded. -/
theorem Representable.spacing_dvd (hg : Representable g) (h : 2 ^ n.log2 ≤ g) :
    spacing n ∣ g := by
  obtain ⟨m, e, hm, rfl⟩ := hg
  rw [spacing_eq]
  by_cases he : n.log2 - 52 ≤ e
  · exact Nat.dvd_mul_left_of_dvd (Nat.pow_dvd_pow 2 he) m
  · -- then the number is a power of two itself
    have hle : m * 2 ^ e ≤ 2 ^ n.log2 :=
      calc m * 2 ^ e ≤ 2 ^ 53 * 2 ^ e := Nat.mul_le_mul_right _ hm
        _ = 2 ^ (53 + e) := (Nat.pow_add 2 53 e).symm
        _ ≤ 2 ^ n.log2 := Nat.pow_le_pow_right (by decide) (by omega)
    rw [Nat.le_antisymm hle h]
    exact Nat.pow_dvd_pow 2 (Nat.sub_le _ _)

theorem le_nearest53_of_dvd (hdvd : spacing n ∣ g) (h : g ≤ n) : g ≤ nearest53 n 1 := by
  obtain ⟨k, rfl⟩ := hdvd
  rw [Nat.mul_comm] at h ⊢
  rw [nearest53_one]
  have hpos := spacing_pos n
  exact Nat.mul_le_mul_right _ (le_roundDiv .toEven hpos (by rw [Nat.mul_assoc]; omega))

/-- Nothing is rounded down across a number of 53 digits. -/
theorem le_nearest53 (hg : Representable g) (h : g ≤ n) : g ≤ nearest53 n 1 := by
  by_cases hn : n = 0
  · subst hn
    rw [Nat.le_zero.1 h]
    exact Nat.zero_le _
  by_cases hlog : 2 ^ n.log2 ≤ g
  · exact le_nearest53_of_dvd (hg.spacing_dvd hlog) h
  · have hpow : 2 ^ n.log2 ≤ nearest53 n 1 :=
      le_nearest53_of_dvd ((representable_pow _).spacing_dvd le_rfl) (Nat.log2_self_le hn)
    omega

/-- Nothing is rounded up across a number of 53 digits. -/
theorem nearest53_le (hg : Representable g) (h : n ≤ g) : nearest53 n 1 ≤ g := by
  by_cases hn : n = 0
  · subst hn
    rw [nearest53_one_of_lt (by decide)]
    exact Nat.zero_le _
  obtain ⟨k, rfl⟩ := hg.spacing_dvd ((Nat.log2_self_le hn).trans h)
  rw [Nat.mul_comm] at h ⊢
  rw [nearest53_one]
  have hpos := spacing_pos n
  exact Nat.mul_le_mul_right _ (roundDiv_le .toEven (by rw [Nat.mul_assoc]; omega))

theorem nearest53_eq (hg : Representable g) : nearest53 g 1 = g :=
  Nat.le_antisymm (nearest53_le hg le_rfl) (le_nearest53 hg le_rfl)

theorem nearest53_mono (h : n ≤ n') : nearest53 n 1 ≤ nearest53 n' 1 := by
  by_cases hn' : n' = 0
  · subst hn'
    rw [Nat.le_zero.1 h]
  by_cases hlog : n.log2 = n'.log2
  · have hspacing : spacing n = spacing n' := by rw [spacing_eq, spacing_eq, hlog]
    rw [nearest53_one, nearest53_one, hspacing]
    exact Nat.mul_le_mul_right _ (roundDiv_mono .toEven _ h)
  · -- a power of two lies between the two numbers
    have hlt : n.log2 < n'.log2 := by
      by_cases hn : n = 0
      · subst hn
        rw [Nat.log2_zero] at hlog ⊢
        omega
      · have hle : n.log2 ≤ n'.log2 := (Nat.le_log2 hn').2 ((Nat.log2_self_le hn).trans h)
        omega
    have hbelow : n ≤ 2 ^ n'.log2 :=
      (Nat.lt_log2_self.trans_le (Nat.pow_le_pow_right (by decide) hlt)).le
    exact (nearest53_le (representable_pow _) hbelow).trans
      (le_nearest53 (representable_pow _) (Nat.log2_self_le hn'))

/-- The rounded number is off by half a step at most. -/
theorem nearest53_le_add (n : Nat) : 2 * nearest53 n 1 ≤ 2 * n + spacing n := by
  rw [nearest53_one]
  exact roundDiv_mul_le .toEven n (spacing n)

theorem le_nearest53_add (n : Nat) : 2 * n ≤ 2 * nearest53 n 1 + spacing n := by
  rw [nearest53_one]
  exact le_roundDiv_mul .toEven n (spacing_pos n)

theorem spacing_mono (h : n ≤ n') : spacing n ≤ spacing n' := by
  rw [spacing_eq, spacing_eq]
  refine Nat.pow_le_pow_right (by decide) (Nat.sub_le_sub_right ?_ 52)
  by_cases hn : n = 0
  · subst hn
    exact Nat.zero_le _
  · exact (Nat.le_log2 (by omega)).2 ((Nat.log2_self_le hn).trans h)

/-- A number that is rounded at all is at least `2 ^ 52` steps large. -/
theorem spacing_mul_le (h : 2 ^ 53 ≤ n) : 2 ^ 52 * spacing n ≤ n := by
  have hn : n ≠ 0 := by
    rintro rfl
    exact absurd h (by decide)
  have hlog : 53 ≤ n.log2 := (Nat.le_log2 hn).2 h
  calc 2 ^ 52 * spacing n = 2 ^ (52 + (n.log2 - 52)) := by rw [spacing_eq, Nat.pow_add]
    _ = 2 ^ n.log2 := by rw [Nat.add_sub_cancel' (by omega)]
    _ ≤ n := Nat.log2_self_le hn

/-- The rounded number is off by one part in `2 ^ 53` at most. -/
theorem nearest53_relative (n : Nat) :
    2 ^ 53 * nearest53 n 1 ≤ 2 ^ 53 * n + n ∧ 2 ^ 53 * n ≤ 2 ^ 53 * nearest53 n 1 + n := by
  by_cases h : n < 2 ^ 53
  · rw [nearest53_one_of_lt (by rwa [Nat.pow_eq])]
    omega
  · have hspacing := spacing_mul_le (Nat.le_of_not_lt h)
    have hle := nearest53_le_add n
    have hge := le_nearest53_add n
    omega

end Digits

end BackupReport
