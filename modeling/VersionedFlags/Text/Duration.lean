/-!
# Durations for messages

A duration is written in the greatest of seconds, milliseconds, microseconds and
nanoseconds that it fills, with as many decimals as it needs.
-/

namespace VersionedFlags

namespace Text

/-- `rest / scale` as decimals without trailing zeros, `scale` a power of ten. -/
def decimals (rest scale : Nat) : List Char :=
  let digits := (Nat.toDigits 10 (scale + rest)).drop 1
  (digits.reverse.dropWhile (· == '0')).reverse

def inUnit (nanos unit : Nat) (name : String) : String :=
  let whole := toString (nanos / unit)
  match decimals (nanos % unit) unit with
  | [] => whole ++ name
  | fraction => whole ++ "." ++ String.ofList fraction ++ name

def duration (nanos : Nat) : String :=
  if 1_000_000_000 ≤ nanos then inUnit nanos 1_000_000_000 "s"
  else if 1_000_000 ≤ nanos then inUnit nanos 1_000_000 "ms"
  else if 1_000 ≤ nanos then inUnit nanos 1_000 "µs"
  else toString nanos ++ "ns"

end Text

end VersionedFlags
