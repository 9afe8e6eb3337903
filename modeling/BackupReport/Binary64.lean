import BackupReport.Rounding

/-!
# Double-precision numbers

The finite numbers of the IEEE 754 format binary64, held exactly: a sign and a whole number of
units of `2 ^ -1074`, the smallest positive number of the format.  A number with a decimal
exponent is read by one multiplication with, or division by, the power of ten of the format, so
that a result is rounded twice and may miss the nearest number by a little.
-/

namespace BackupReport

/-- A finite number of the format: `± units · 2 ^ -1074`. -/
structure Binary64 where
  negative : Bool
  units : Nat
deriving DecidableEq

namespace Binary64

/-! ## Magnitudes -/

/-- How many units make the number one. -/
def one : Nat := Nat.pow 2 1074

/-- The least magnitude that is too large for the format. -/
def tooLarge : Nat := Nat.pow 2 1024 * one

/-- The magnitude that is nearest to a whole number. -/
def ofNat (n : Nat) : Nat := nearest53 n 1 * one

/-- The magnitude of a product. -/
def product (a b : Nat) : Nat := nearest53 (a * b) one

/-- The magnitude of a quotient. -/
def quotient (a b : Nat) : Nat := nearest53 (a * one) b

/-- The magnitude that is nearest to a power of ten. -/
def power10 (n : Nat) : Nat := ofNat (Nat.pow 10 n)

/-- The largest power of ten in the format. -/
def largestPower : Nat := 308

/-- Divides by the largest power of ten as often as asked, until nothing is left. -/
def shrink : Nat → Nat → Nat
  | 0, a => a
  | n + 1, a => if a = 0 then 0 else shrink n (quotient a (power10 largestPower))

/-- The magnitude `significand · 10 ^ exponent`, unless it is too large. -/
def scale? (significand : Nat) : Int → Option Nat
  | .ofNat e =>
    if significand = 0 then some 0
    else if largestPower < e then none
    else
      let a := product (ofNat significand) (power10 e)
      if tooLarge ≤ a then none else some a
  | .negSucc e =>
    some (quotient (shrink (e / largestPower) (ofNat significand)) (power10 (e % largestPower + 1)))

/-! ## Numbers -/

/-- The number nearest to a whole number. -/
def ofInt (n : Int) : Binary64 := ⟨n < 0, ofNat n.natAbs⟩

/-- The number `± significand · 10 ^ exponent`, unless it is too large. -/
def ofScaled? (negative : Bool) (significand : Nat) (exponent : Int) : Option Binary64 :=
  (scale? significand exponent).map (⟨negative, ·⟩)

/-- The number zero. -/
def zero : Binary64 := ⟨false, 0⟩

instance : Inhabited Binary64 := ⟨zero⟩

/-- The whole part of a number as a word: a negative number gives zero, and one that is too large
the largest word. -/
def toWord (x : Binary64) : UInt64 :=
  if x.negative then 0 else UInt64.ofNat (min (x.units / one) (UInt64.size - 1))

end Binary64

end BackupReport
