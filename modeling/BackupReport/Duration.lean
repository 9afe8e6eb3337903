/-!
# The text of a duration

A duration in whole seconds is written as hours, minutes and seconds, `1h2m3s`, without the
components that are zero.
-/

namespace BackupReport.Duration

/-- One component of a duration, or nothing if it is zero. -/
def component (amount : Nat) (letter : String) : String :=
  if amount = 0 then "" else toString amount ++ letter

/-- The text of a duration in seconds. -/
def text (seconds : UInt64) : String :=
  let n := seconds.toNat
  if n = 0 then "0s"
  else component (n / 3600) "h" ++ component (n % 3600 / 60) "m" ++ component (n % 60) "s"

end BackupReport.Duration
