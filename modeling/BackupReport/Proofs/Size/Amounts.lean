import BackupReport.Proofs.Arguments.Values
import BackupReport.Proofs.Size.Units
import Mathlib.Data.List.TakeWhile
import Mathlib.Tactic.NormNum
import Mathlib.Tactic.Ring

/-!
# Amounts as they are written

A byte count is written as a whole number of bytes or as an amount: a numeral with three decimals
and a unit (`decimals3_eq`).  Both can be read back (`read`), and what is read back is the number
that the numeral and the unit stand for (`read_bytes`, `Amount.read_text`).  So it can be said how
far a text is from its count, and that a greater count is never written as a smaller amount
(`text_accurate`).
-/

namespace BackupReport.Size

/-! ## Amounts -/

/-- A numeral with three decimals, in a unit `1024 ^ power` from KiB to EiB. -/
structure Amount where
  whole : Nat
  tenths : Fin 10
  hundredths : Fin 10
  thousandths : Fin 10
  power : Nat
  power_pos : 1 ≤ power
  power_le : power ≤ 6

namespace Amount

/-- An amount as it is written. -/
def text (x : Amount) : String :=
  toString x.whole ++ "." ++
    (toString x.tenths.val ++ toString x.hundredths.val ++ toString x.thousandths.val) ++
    " " ++ unitName x.power

/-- The number that a numeral stands for. -/
def numeral (x : Amount) : ℚ :=
  x.whole + x.tenths.val / 10 + x.hundredths.val / 100 + x.thousandths.val / 1000

/-- The number of bytes that an amount stands for. -/
def bytes (x : Amount) : ℚ := x.numeral * 1024 ^ x.power

/-- The amount of some thousandths of a unit. -/
def ofThousandths (t power : Nat) (power_pos : 1 ≤ power) (power_le : power ≤ 6) : Amount where
  whole := t / 1000
  tenths := Fin.ofNat 10 (t / 100)
  hundredths := Fin.ofNat 10 (t / 10)
  thousandths := Fin.ofNat 10 t
  power := power
  power_pos := power_pos
  power_le := power_le

end Amount

variable {t k : Nat}

theorem Amount.numeral_ofThousandths (hk : 1 ≤ k) (hk' : k ≤ 6) :
    (ofThousandths t k hk hk').numeral = t / 1000 := by
  have hsum : t = 1000 * (t / 1000) + 100 * (t / 100 % 10) + 10 * (t / 10 % 10) + t % 10 := by omega
  have hcast : (t : ℚ) = 1000 * (t / 1000 : Nat) + 100 * (t / 100 % 10 : Nat) +
      10 * (t / 10 % 10 : Nat) + (t % 10 : Nat) := by exact_mod_cast hsum
  rw [hcast]
  simp only [numeral, ofThousandths, Fin.val_ofNat]
  ring

/-- The last digit of a number of two digits or more stands behind the others. -/
theorem toString_append_digit {n : Nat} (h : 10 ≤ n) :
    toString n = toString (n / 10) ++ toString (n % 10) := by
  rw [Nat.toString_eq_ofList_toDigits, Nat.toDigits_of_base_le (by decide) h,
    Nat.toString_eq_ofList_toDigits, Nat.toString_eq_ofList_toDigits,
    Nat.toDigits_of_lt_base (Nat.mod_lt n (by decide)), String.ofList_append]

/-- Three decimals are written out with the zeros that lead them. -/
theorem decimals3_eq (hk : 1 ≤ k) (hk' : k ≤ 6) :
    decimals3 t ++ " " ++ unitName k = (Amount.ofThousandths t k hk hk').text := by
  have hdigits : ∀ f < 1000,
      (if f < 10 then "00" else if f < 100 then "0" else "") ++ toString f =
        toString (f / 100) ++ toString (f / 10 % 10) ++ toString (f % 10) := by
    intro f hf
    split
    · have hzero : f / 100 = 0 ∧ f / 10 % 10 = 0 ∧ f % 10 = f := by omega
      rw [hzero.1, hzero.2.1, hzero.2.2]
      rfl
    split
    · have hzero : f / 100 = 0 ∧ f / 10 % 10 = f / 10 := by omega
      rw [hzero.1, hzero.2, toString_append_digit (n := f) (by omega), String.append_assoc]
      rfl
    · rw [toString_append_digit (n := f) (by omega), toString_append_digit (n := f / 10) (by omega),
        Nat.div_div_eq_div_mul]
      exact String.empty_append
  have hrest : t % 1000 / 100 = t / 100 % 10 ∧ t % 1000 / 10 % 10 = t / 10 % 10 ∧
      t % 1000 % 10 = t % 10 := by omega
  have hfraction := hdigits (t % 1000) (Nat.mod_lt t (by decide))
  rw [hrest.1, hrest.2.1, hrest.2.2] at hfraction
  have hnumeral : decimals3 t = toString (t / 1000) ++ "." ++
      (toString (t / 100 % 10) ++ toString (t / 10 % 10) ++ toString (t % 10)) :=
    String.append_assoc.trans (congrArg (toString (t / 1000) ++ "." ++ ·) hfraction)
  rw [hnumeral]
  rfl

/-! ## Reading -/

/-- The names of the units `1024 ^ k`, from `k = 0` on. -/
def unitNames : List String := ["B", "KiB", "MiB", "GiB", "TiB", "PiB", "EiB"]

/-- The value of a numeral that may have decimals behind a point. -/
def numeralValue (cs : List Char) : ℚ :=
  let decimals := (cs.dropWhile (· ≠ '.')).drop 1
  decimalValue (cs.takeWhile (· ≠ '.')) + decimalValue decimals / 10 ^ decimals.length

/-- The number of bytes that a text stands for: a numeral, a blank and the name of a unit. -/
def read (s : String) : Option ℚ :=
  let name := (s.toList.dropWhile (· ≠ ' ')).drop 1
  (unitNames.idxOf? (String.ofList name)).map fun k =>
    numeralValue (s.toList.takeWhile (· ≠ ' ')) * 1024 ^ k

/-- A numeral has neither a point nor a blank among its digits. -/
theorem not_mem_toDigits {c : Char} (hc : c.isDigit = false) (n : Nat) :
    c ∉ Nat.toDigits 10 n := by
  intro hmem
  rw [Nat.isDigit_of_mem_toDigits (by decide) (by decide) hmem] at hc
  cases hc

/-- A blank parts the numeral from the unit. -/
theorem read_eq {s : String} {numeral : List Char} {name : String}
    (hk : unitNames.idxOf? name = some k) (hs : s.toList = numeral ++ ' ' :: name.toList)
    (hblank : ' ' ∉ numeral) : read s = some (numeralValue numeral * 1024 ^ k) := by
  unfold read
  dsimp only
  rw [hs, takeWhile_ne_append _ hblank, dropWhile_ne_append _ hblank, List.drop_one, List.tail_cons,
    String.ofList_toList, hk, Option.map_some]

theorem toList_toString (n : Nat) : (toString n).toList = Nat.toDigits 10 n := by
  rw [Nat.toString_eq_ofList_toDigits, String.toList_ofList]

/-- A whole number of bytes is read back. -/
theorem read_bytes (n : Nat) : read (toString n ++ " B") = some (n : ℚ) := by
  have hpoint : '.' ∉ Nat.toDigits 10 n := not_mem_toDigits (by decide) n
  have hnumeral : numeralValue (Nat.toDigits 10 n) = n := by
    have hne := decide_ne_of_not_mem hpoint
    unfold numeralValue
    dsimp only
    rw [List.takeWhile_eq_self_iff.2 hne, List.dropWhile_eq_nil_iff.2 hne, decimalValue_toDigits]
    simp [decimalValue]
  have hbyte : unitNames.idxOf? "B" = some 0 := by decide
  rw [read_eq hbyte ?_ (not_mem_toDigits (by decide) n), hnumeral]
  · simp
  · rw [String.toList_append, toList_toString]
    rfl

/-- Three decimals have the value of their digits. -/
theorem numeralValue_decimals (n : Nat) (a b c : Fin 10) :
    numeralValue (Nat.toDigits 10 n ++
      '.' :: [Nat.digitChar a, Nat.digitChar b, Nat.digitChar c]) =
      n + a.val / 10 + b.val / 100 + c.val / 1000 := by
  have hpoint : '.' ∉ Nat.toDigits 10 n := not_mem_toDigits (by decide) n
  have hdigit : ∀ d : Fin 10, (Nat.digitChar d).toNat - '0'.toNat = d.val := by decide
  unfold numeralValue
  dsimp only
  rw [takeWhile_ne_append _ hpoint, dropWhile_ne_append _ hpoint, decimalValue_toDigits,
    List.drop_one, List.tail_cons]
  simp only [decimalValue, List.foldl_cons, List.foldl_nil, hdigit, List.length_cons,
    List.length_nil]
  push_cast
  ring

/-- An amount is read back. -/
theorem Amount.read_text (x : Amount) : read x.text = some x.bytes := by
  have hname : unitNames.idxOf? (unitName x.power) = some x.power := by
    have hpos := x.power_pos
    have hle := x.power_le
    generalize x.power = k at *
    interval_cases k <;> decide
  have htext : x.text.toList = (Nat.toDigits 10 x.whole ++ '.' :: [Nat.digitChar x.tenths,
      Nat.digitChar x.hundredths, Nat.digitChar x.thousandths]) ++
        ' ' :: (unitName x.power).toList := by
    simp only [Amount.text, String.toList_append, toList_toString,
      Nat.toDigits_of_lt_base x.tenths.isLt, Nat.toDigits_of_lt_base x.hundredths.isLt,
      Nat.toDigits_of_lt_base x.thousandths.isLt]
    simp
  have hblank : ' ' ∉ Nat.toDigits 10 x.whole ++ '.' :: [Nat.digitChar x.tenths,
      Nat.digitChar x.hundredths, Nat.digitChar x.thousandths] := by
    have hdigit : ∀ d : Fin 10, ' ' ≠ Nat.digitChar d := by decide
    simp [not_mem_toDigits (c := ' ') (by decide), hdigit]
  rw [read_eq hname htext hblank, numeralValue_decimals]
  rfl

/-! ## Accuracy -/

section Accuracy

/-- The amount that a count from 1024 on is written as. -/
def amount (n : Nat) : Amount :=
  .ofThousandths (thousandths (nearest53 n 1)) (unitPower (nearest53 n 1))
    (unitPower_pos _) (unitPower_le_six _)

theorem text_amount {n : UInt64} (h : 1024 ≤ n.toNat) : text n = (amount n.toNat).text := by
  rw [text_eq h]
  exact decimals3_eq _ _

theorem text_bytes {n : UInt64} (h : n.toNat < 1024) : text n = toString n.toNat ++ " B" := by
  unfold text
  rw [if_pos (UInt64.lt_iff_toNat_lt.2 h)]

theorem power_amount (n : Nat) : (amount n).power = unitPower (nearest53 n 1) := by
  rw [amount, Amount.ofThousandths]

theorem numeral_amount (n : Nat) :
    (amount n).numeral = (thousandths (nearest53 n 1) : ℚ) / 1000 :=
  Amount.numeral_ofThousandths _ _

variable {m n : Nat}

theorem numeral_amount_ge (h : 1024 ≤ n) : 1 ≤ (amount n).numeral := by
  have hheld : 1024 ≤ nearest53 n 1 := le_nearest53 (representable_pow 10) h
  have hge : (1000 : ℚ) ≤ thousandths (nearest53 n 1) := by exact_mod_cast thousandths_ge hheld
  rw [numeral_amount]
  linarith

theorem numeral_amount_le (h : n ≤ 2 ^ 64) :
    (amount n).numeral ≤ 1023.999 ∧ ((amount n).power = 6 → (amount n).numeral ≤ 16) := by
  have hheld : nearest53 n 1 ≤ 2 ^ 64 := nearest53_le (representable_pow 64) h
  obtain ⟨hle, hlast⟩ := thousandths_le hheld
  rw [numeral_amount, power_amount]
  refine ⟨?_, fun hsix => ?_⟩
  · have hcast : (thousandths (nearest53 n 1) : ℚ) ≤ 1023999 := by exact_mod_cast hle
    norm_num
    linarith
  · have hcast : (thousandths (nearest53 n 1) : ℚ) ≤ 16000 := by exact_mod_cast hlast hsix
    linarith

/-- An amount is off by one thousandth of its unit at most. -/
theorem bytes_amount_accurate (h : n ≤ 2 ^ 64) :
    |(amount n).bytes - n| ≤ 0.001 * 1024 ^ (amount n).power := by
  obtain ⟨hlow, hhigh⟩ := thousandths_accurate h
  have hlow' : (thousandths (nearest53 n 1) : ℚ) * 1024 ^ unitPower (nearest53 n 1) ≤
      n * 1000 + 1024 ^ unitPower (nearest53 n 1) := by exact_mod_cast hlow
  have hhigh' : (n : ℚ) * 1000 ≤ thousandths (nearest53 n 1) * 1024 ^ unitPower (nearest53 n 1) +
      1024 ^ unitPower (nearest53 n 1) := by exact_mod_cast hhigh
  rw [Amount.bytes, numeral_amount, power_amount, abs_le]
  norm_num
  constructor <;> linarith

theorem bytes_amount_mono (hm : 1024 ≤ m) (h : m ≤ n) (hn : n ≤ 2 ^ 64) :
    (amount m).bytes ≤ (amount n).bytes := by
  have hheld : 1024 ≤ nearest53 m 1 := le_nearest53 (representable_pow 10) hm
  have hsize : nearest53 n 1 ≤ 2 ^ 64 := nearest53_le (representable_pow 64) hn
  have hmono := thousandths_mul_mono hheld (nearest53_mono h) hsize
  have hcast : (thousandths (nearest53 m 1) : ℚ) * 1024 ^ unitPower (nearest53 m 1) ≤
      thousandths (nearest53 n 1) * 1024 ^ unitPower (nearest53 n 1) := by exact_mod_cast hmono
  rw [Amount.bytes, Amount.bytes, numeral_amount, numeral_amount, power_amount, power_amount]
  linarith

/-- Every amount is larger than a count that is written in bytes. -/
theorem bytes_amount_ge (h : 1024 ≤ n) : 1024 ≤ (amount n).bytes := by
  have hnumeral := numeral_amount_ge h
  have hunit : (1024 : ℚ) ^ 1 ≤ 1024 ^ (amount n).power :=
    pow_le_pow_right₀ (by norm_num) (amount n).power_pos
  rw [Amount.bytes]
  nlinarith

/-- A count below 1024 is written in bytes.  Every other one is written as an amount with a numeral
from 1.000 to 1023.999, or to 16.000 in EiB, that is off by one thousandth of its unit at most.  A
count that is at most another one is never written as a larger size than that. -/
theorem text_accurate :
    (∀ n : UInt64, n.toNat < 1024 →
      text n = toString n.toNat ++ " B" ∧ read (text n) = some (n.toNat : ℚ)) ∧
    (∀ n : UInt64, 1024 ≤ n.toNat → ∃ x : Amount, text n = x.text ∧ read (text n) = some x.bytes ∧
      1 ≤ x.numeral ∧ x.numeral ≤ 1023.999 ∧ (x.power = 6 → x.numeral ≤ 16) ∧
      |x.bytes - n.toNat| ≤ 0.001 * 1024 ^ x.power) ∧
    ∀ m n : UInt64, m ≤ n → ∃ p q, read (text m) = some p ∧ read (text n) = some q ∧ p ≤ q := by
  have hsmall : ∀ n : UInt64, n.toNat < 1024 → read (text n) = some (n.toNat : ℚ) := by
    intro n hn
    rw [text_bytes hn, read_bytes]
  have hlarge : ∀ n : UInt64, 1024 ≤ n.toNat → read (text n) = some (amount n.toNat).bytes := by
    intro n hn
    rw [text_amount hn, Amount.read_text]
  have hsize : ∀ n : UInt64, n.toNat ≤ 2 ^ 64 := fun n => n.toNat_lt.le
  refine ⟨fun n hn => ⟨text_bytes hn, hsmall n hn⟩, fun n hn => ?_, fun m n hmn => ?_⟩
  · obtain ⟨hle, hlast⟩ := numeral_amount_le (hsize n)
    exact ⟨amount n.toNat, text_amount hn, hlarge n hn, numeral_amount_ge hn, hle, hlast,
      bytes_amount_accurate (hsize n)⟩
  · have hle : m.toNat ≤ n.toNat := UInt64.le_iff_toNat_le.1 hmn
    by_cases hm : m.toNat < 1024
    · by_cases hn : n.toNat < 1024
      · exact ⟨_, _, hsmall m hm, hsmall n hn, by exact_mod_cast hle⟩
      · have hbytes := bytes_amount_ge (Nat.le_of_not_lt hn)
        have hcast : (m.toNat : ℚ) ≤ 1024 := by exact_mod_cast hm.le
        exact ⟨_, _, hsmall m hm, hlarge n (by omega), hcast.trans hbytes⟩
    · exact ⟨_, _, hlarge m (by omega), hlarge n (by omega),
        bytes_amount_mono (by omega) hle (hsize n)⟩

end Accuracy

end BackupReport.Size
