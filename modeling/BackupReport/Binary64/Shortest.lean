import BackupReport.Binary64

/-!
# The shortest decimal text of a double-precision number

Among the decimals that are nearer to a number than to any other number of the format, the text
uses one with the fewest digits, and of those the one nearest to the number.  Exponents from -5 to
15 are written positionally, with at least one digit after the point.
-/

namespace BackupReport.Binary64

/-! ## Digits -/

/-- A decimal `digits · 10 ^ (exponent - (number of digits - 1))`: the exponent is that of the
first digit. -/
structure Decimal where
  digits : List Char
  exponent : Int

/-- Every magnitude of the format, times this power of ten, has more than 17 digits before the
point. -/
def margin : Nat := 341

/-- The decimals that read back as a magnitude, times `4 · 10 ^ margin` units: whether the ends
belong to them, the least and the greatest.  Below a power of two the neighbours lie closer. -/
def readBackRange (a : Nat) : Bool × Nat × Nat :=
  let step := spacing a
  let below := if a = Nat.pow 2 a.log2 ∧ 1 < step then step else 2 * step
  (a / step % 2 == 0, (4 * a - below) * Nat.pow 10 margin, (4 * a + 2 * step) * Nat.pow 10 margin)

/-- The decimal nearest to a magnitude among those of the grid `10 ^ power` that read back as it.
Only the two neighbours on the grid can be nearest. -/
def nearestOnGrid (a : Nat) (power : Nat) : Option Nat :=
  let grid := Nat.pow 10 power * one
  let exact := a * Nat.pow 10 margin
  let (closed, least, greatest) := readBackRange a
  let readsBack := fun c : Nat =>
    let x := 4 * c * grid
    if closed then least ≤ x ∧ x ≤ greatest else least < x ∧ x < greatest
  let lower := exact / grid
  let upper := lower + 1
  if readsBack lower then
    if readsBack upper then some (roundDiv .toEven exact grid) else some lower
  else if readsBack upper then some upper else none

/-- A digit text without the zeros at its end, save the first digit. -/
def dropZeros : List Char → List Char
  | [] => []
  | d :: ds => d :: (ds.reverse.dropWhile (· == '0')).reverse

/-- The shortest decimal of a positive magnitude. -/
def shortest (a : Nat) : Decimal :=
  let places := (Nat.toDigits 10 (a * Nat.pow 10 margin / one)).length
  let found := ([1, 2, 3, 4, 5, 6, 7, 8, 9, 10, 11, 12, 13, 14, 15, 16, 17].findSome? fun count =>
    (nearestOnGrid a (places - count)).map fun c => (count, c)).getD (1, 0)
  let digits := Nat.toDigits 10 found.2
  ⟨dropZeros digits, (places : Int) - 1 - margin + (digits.length - found.1)⟩

/-! ## Layout -/

/-- How a decimal is written: which exponents are positional. -/
structure Layout where
  least : Int
  greatest : Int

/-- Exponents from -5 to 15 are positional. -/
def layout : Layout := ⟨-5, 15⟩

/-- A decimal written out; there is always a point or an exponent. -/
def Layout.write (l : Layout) (d : Decimal) : List Char :=
  let count := d.digits.length
  if l.least ≤ d.exponent ∧ d.exponent ≤ l.greatest then
    match d.exponent with
    | .ofNat e =>
      if count ≤ e + 1 then d.digits ++ List.replicate (e + 1 - count) '0' ++ ['.', '0']
      else d.digits.take (e + 1) ++ '.' :: d.digits.drop (e + 1)
    | .negSucc e => '0' :: '.' :: List.replicate e '0' ++ d.digits
  else
    let fraction := if count ≤ 1 then [] else '.' :: d.digits.drop 1
    let sign := if d.exponent < 0 then '-' else '+'
    d.digits.take 1 ++ fraction ++ 'e' :: sign :: Nat.toDigits 10 d.exponent.natAbs

/-- The text of a number. -/
def text (x : Binary64) : List Char :=
  let magnitude := if x.units = 0 then ['0', '.', '0'] else layout.write (shortest x.units)
  if x.negative then '-' :: magnitude else magnitude

end BackupReport.Binary64
