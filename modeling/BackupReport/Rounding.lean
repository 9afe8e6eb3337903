/-!
# Rounding a quotient

A quotient of two natural numbers is rounded to the nearest whole number, or to the nearest
whole number that has at most 53 significant binary digits.  Both roundings are exact: no
intermediate result loses a digit.
-/

namespace BackupReport

/-! ## To a whole number -/

/-- Where a quotient goes that lies exactly half way between two whole numbers. -/
inductive Tie where
  | toEven
  | up

/-- The whole number nearest to `num / den`. -/
def roundDiv (tie : Tie) (num den : Nat) : Nat :=
  let below := num / den
  let twice := 2 * (num % den)
  if twice < den then below
  else if den < twice then below + 1
  else match tie with
    | .toEven => below + below % 2
    | .up => below + 1

/-! ## To 53 significant digits -/

/-- The distance between neighbours among the numbers of 53 binary digits, at `n`. -/
def spacing (n : Nat) : Nat := Nat.pow 2 (n.log2 - 52)

/-- The number of at most 53 significant binary digits that is nearest to `num / den`; of two
equally near ones it is the one whose last digit is zero. -/
def nearest53 (num den : Nat) : Nat :=
  let step := spacing (num / den)
  roundDiv .toEven num (den * step) * step

/-! ## Whole quotients are kept -/

/-- A quotient without remainder is its own rounding. -/
theorem roundDiv_mul_self (tie : Tie) (n : Nat) {den : Nat} (h : 0 < den) :
    roundDiv tie (n * den) den = n := by
  simp [roundDiv, Nat.mul_mod_left, Nat.mul_div_cancel n h, h]

/-- A number below `2 ^ 53` is its own rounding. -/
theorem nearest53_one_of_lt {n : Nat} (h : n < Nat.pow 2 53) : nearest53 n 1 = n := by
  have hlog : n.log2 - 52 = 0 := by
    by_cases hn : n = 0
    · simp [hn]
    · have := (Nat.log2_lt hn).mpr h
      omega
  have hone : roundDiv .toEven (n * 1) 1 = n := roundDiv_mul_self .toEven n (by decide)
  simp only [nearest53, spacing, Nat.div_one, hlog, Nat.pow, Nat.mul_one] at hone ⊢
  exact hone

end BackupReport
