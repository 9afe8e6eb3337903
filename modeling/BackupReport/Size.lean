import BackupReport.Rounding

/-!
# The text of a byte count

Counts below 1024 are written in bytes.  A larger count is written with three decimals in the
smallest binary unit in which it does not round up to 1024.  A count is held as a number of 53
significant binary digits before it is scaled, so that a count above `2 ^ 53` may be written a
little off its exact value.
-/

namespace BackupReport.Size

/-- The name of the unit `1024 ^ k`. -/
def unitName : Nat → String
  | 1 => "KiB"
  | 2 => "MiB"
  | 3 => "GiB"
  | 4 => "TiB"
  | 5 => "PiB"
  | _ => "EiB"

/-- The least `k` from 1 to 6 for which `held / 1024 ^ k`, taken to whole thousandths, stays below
1024; it is 6 if there is none.  The thousandfold of `held` is itself taken to 53 digits. -/
def unitPower (held : Nat) : Nat :=
  let thousandfold := nearest53 (held * 1000) 1
  ([1, 2, 3, 4, 5].find? fun k => roundDiv .up thousandfold (Nat.pow 1024 k) < 1024000).getD 6

/-- A number of thousandths as a numeral with three decimals. -/
def decimals3 (thousandths : Nat) : String :=
  let fraction := thousandths % 1000
  let zeros := if fraction < 10 then "00" else if fraction < 100 then "0" else ""
  toString (thousandths / 1000) ++ "." ++ zeros ++ toString fraction

/-- The text of a byte count. -/
def text (bytes : UInt64) : String :=
  if bytes < 1024 then toString bytes.toNat ++ " B"
  else
    let held := nearest53 bytes.toNat 1
    let k := unitPower held
    decimals3 (roundDiv .toEven (held * 1000) (Nat.pow 1024 k)) ++ " " ++ unitName k

end BackupReport.Size
