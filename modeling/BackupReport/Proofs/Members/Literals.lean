import Mathlib.Algebra.Ring.Int.Defs
import BackupReport.Proofs.Members.Values

/-!
# Integer literals of any length

A literal without a point and without an exponent writes an integer, however long it is.  It is
decoded as a signed or an unsigned word exactly if this integer is one, and then as it, without
wrapping or rounding (`Literal.takes_signed`, `Literal.takes_unsigned`); every other literal is
declined (`Literal.declines_signed`, `Literal.declines_unsigned`).  So is `-0`, which is a
double-precision number.
-/

namespace BackupReport.Json

open Decoder

/-- An integer literal: its sign, and its digits without a leading zero. -/
structure Literal where
  negative : Bool
  whole : List UInt8
  written : Numeral.Whole whole

namespace Literal

variable {l : Literal}

/-- The literal as it is written. -/
def text (l : Literal) : List UInt8 := if l.negative then 0x2D :: l.whole else l.whole

/-- The integer that a literal writes. -/
def value (l : Literal) : Int :=
  if l.negative then -(digitsValue l.whole : Int) else digitsValue l.whole

/-- The literal as a number that is read. -/
def numeral (l : Literal) : Numeral := ⟨l.negative, l.whole, none, none⟩

/-- Whether a literal writes an integer from `low` on and below `high`, and is not `-0`. -/
structure Within (low high : Int) (l : Literal) : Prop where
  low_le : low ≤ l.value
  lt_high : l.value < high
  ne_minus_zero : l.text ≠ [0x2D, 0x30]

/-! ## Reading a literal -/

theorem written_text (l : Literal) : l.numeral.Written l.text := by
  have hunsigned : l.numeral.Unsigned (l.whole ++ ([] ++ [])) := .intro l.written .absent .absent
  rw [List.append_nil, List.append_nil] at hunsigned
  unfold text
  split
  · rename_i hnegative
    exact .minus hnegative hunsigned
  · rename_i hnegative
    exact .plain (Bool.eq_false_iff.2 hnegative) hunsigned

theorem isValue (l : Literal) : IsValue l.text := .number l.written_text

/-- A row of digits goes on from a number to one that is no smaller. -/
theorem le_foldl_digits (ds : List UInt8) (n : Nat) :
    n ≤ ds.foldl (fun n b => n * 10 + digitValue b) n := by
  induction ds generalizing n with
  | nil => exact Nat.le_refl n
  | cons d ds ih =>
    rw [List.foldl_cons]
    exact Nat.le_trans (by omega) (ih _)

/-- Only a zero writes zero. -/
theorem eq_zero_of_digitsValue {whole : List UInt8} (hwhole : Numeral.Whole whole)
    (h : digitsValue whole = 0) : whole = [0x30] := by
  cases hwhole with
  | zero => rfl
  | @row d ds hd hzero _ =>
    have hle := le_foldl_digits ds (0 * 10 + digitValue d)
    have hdigit : digitValue d ≠ 0 := by
      intro hdigit
      refine hzero (UInt8.toNat_inj.1 ?_)
      simp only [isDigit, Bool.and_eq_true, decide_eq_true_eq, UInt8.le_iff_toNat_le] at hd
      have hlow : (0x30 : UInt8).toNat = 0x30 := rfl
      unfold digitValue at hdigit
      omega
    have hvalue : digitsValue (d :: ds) =
        ds.foldl (fun n b => n * 10 + digitValue b) (0 * 10 + digitValue d) := rfl
    omega

/-- A literal is `-0` if it has a sign and its digits write zero. -/
theorem minus_zero_iff : l.text = [0x2D, 0x30] ↔ l.negative = true ∧ digitsValue l.whole = 0 := by
  unfold text
  constructor
  · intro h
    split at h
    · rename_i hnegative
      have hwhole : l.whole = [0x30] := (List.cons.inj h).2
      exact ⟨hnegative, congrArg digitsValue hwhole⟩
    · exfalso
      have hwritten := l.written
      rw [h] at hwritten
      cases hwritten with
      | row hd => exact absurd hd (by decide)
  · rintro ⟨hnegative, hvalue⟩
    rw [if_pos hnegative, eq_zero_of_digitsValue l.written hvalue]

/-- The integer of a literal is read as such if it has 64 bits, with or without a sign. -/
theorem integer?_eq (l : Literal) : l.numeral.integer? =
    if -(2 ^ 63) ≤ l.value ∧ l.value < 2 ^ 64 ∧ l.text ≠ [0x2D, 0x30] then some l.value
    else none := by
  have hsize : UInt64.size = 2 ^ 64 := rfl
  have hzero := minus_zero_iff (l := l)
  simp only [Numeral.integer?, numeral, value, Option.isSome_none, Bool.false_eq_true, or_self,
    if_false, hsize, ne_eq, hzero]
  cases l.negative with
  | true =>
    simp only [if_true, true_and]
    congr 1
    rw [eq_iff_iff]
    omega
  | false =>
    simp only [Bool.false_eq_true, if_false, false_and, not_false_eq_true, and_true]
    split <;> split <;> first | rfl | omega

/-- What a literal is read as: its integer, or a double-precision number. -/
theorem value?_cases (l : Literal) {x : Number} (hx : x ∈ l.numeral.value?) :
    (l.numeral.integer? = some l.value ∧ x = .integer l.value) ∨
      l.numeral.integer? = none ∧ ∃ y, x = .floating y := by
  have hvalue : l.numeral.value? = l.numeral.number? := rfl
  rw [hvalue, Option.mem_def] at hx
  unfold Numeral.number? at hx
  have heq := l.integer?_eq
  cases hint : l.numeral.integer? with
  | some n =>
    simp only [hint] at hx
    cases hx
    rw [hint] at heq
    split at heq
    · cases heq
      exact .inl ⟨rfl, rfl⟩
    · cases heq
  | none =>
    simp only [hint] at hx
    obtain ⟨y, -, rfl⟩ := Option.map_eq_some_iff.1 hx
    exact .inr ⟨rfl, y, rfl⟩

theorem value?_of_integer {n : Int} (h : l.numeral.integer? = some n) :
    l.numeral.value? = some (.integer n) := by
  have hvalue : l.numeral.value? = l.numeral.number? := rfl
  rw [hvalue]
  unfold Numeral.number?
  simp only [h]

/-! ## Signed words -/

theorem takes_signed (h : l.Within (-(2 ^ 63)) (2 ^ 63)) :
    Takes signed l.text (Int64.ofInt l.value) := by
  obtain ⟨hlow, hhigh, hzero⟩ := h
  have hint : l.numeral.integer? = some l.value := by
    rw [l.integer?_eq, if_pos ⟨hlow, by omega, hzero⟩]
  have haccept : Number.signed (.integer l.value) = .ok (Int64.ofInt l.value) := if_pos hhigh
  exact takes_number .signed l.written_text (value?_of_integer hint) haccept

theorem declines_signed (h : ¬ l.Within (-(2 ^ 63)) (2 ^ 63)) : Declines signed l.text := by
  refine declines_number .signed l.written_text fun x hx a ha => ?_
  rcases l.value?_cases hx with ⟨hint, rfl⟩ | ⟨-, y, rfl⟩
  · rw [l.integer?_eq] at hint
    split at hint
    · rename_i hwithin
      simp only [Number.signed] at ha
      split at ha
      · rename_i hlt
        exact h ⟨hwithin.1, hlt, hwithin.2.2⟩
      · cases ha
    · cases hint
  · cases ha

/-- A word holds exactly the integer of a literal within its bounds. -/
theorem toInt_word (h : l.Within (-(2 ^ 63)) (2 ^ 63)) : (Int64.ofInt l.value).toInt = l.value :=
  Int64.toInt_ofInt_of_le h.low_le h.lt_high

/-! ## Unsigned words -/

theorem takes_unsigned (h : l.Within 0 (2 ^ 64)) :
    Takes unsigned l.text (UInt64.ofNat l.value.toNat) := by
  obtain ⟨hlow, hhigh, hzero⟩ := h
  have hint : l.numeral.integer? = some l.value := by
    rw [l.integer?_eq, if_pos ⟨by omega, hhigh, hzero⟩]
  have haccept : Number.unsigned (.integer l.value) = .ok (UInt64.ofNat l.value.toNat) :=
    if_pos hlow
  exact takes_number .unsigned l.written_text (value?_of_integer hint) haccept

theorem declines_unsigned (h : ¬ l.Within 0 (2 ^ 64)) : Declines unsigned l.text := by
  refine declines_number .unsigned l.written_text fun x hx a ha => ?_
  rcases l.value?_cases hx with ⟨hint, rfl⟩ | ⟨-, y, rfl⟩
  · rw [l.integer?_eq] at hint
    split at hint
    · rename_i hwithin
      simp only [Number.unsigned] at ha
      split at ha
      · rename_i hle
        exact h ⟨hle, hwithin.2.1, hwithin.2.2⟩
      · cases ha
    · cases hint
  · cases ha

/-- An unsigned word holds exactly the integer of a literal within its bounds. -/
theorem toNat_word (h : l.Within 0 (2 ^ 64)) :
    ((UInt64.ofNat l.value.toNat).toNat : Int) = l.value := by
  obtain ⟨hlow, hhigh, -⟩ := h
  rw [UInt64.toNat_ofNat']
  omega

end Literal

end BackupReport.Json
