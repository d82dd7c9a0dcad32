/-!
Spans of time and how they are shown: in the largest unit that the span reaches, from seconds
down to nanoseconds, with the digits behind the point that are needed.
-/
namespace RemoteEval

structure Duration where
  nanos : Nat
  deriving DecidableEq, Repr

namespace Duration

def ofMicros (n : Nat) : Duration := ⟨n * 1000⟩

def ofMillis (n : Nat) : Duration := ⟨n * 1000000⟩

/-- The digits of a remainder below `10 ^ places`, zeros at the end left out. -/
def fractionDigits (places remainder : Nat) : List Char :=
  let digits := Nat.toDigits 10 remainder
  let padded := List.replicate (places - digits.length) '0' ++ digits
  (padded.reverse.dropWhile (· = '0')).reverse

def inUnit (places : Nat) (unit : String) (d : Duration) : String :=
  let whole := toString (d.nanos / Nat.pow 10 places)
  let remainder := d.nanos % Nat.pow 10 places
  if remainder = 0 then whole ++ unit
  else whole ++ "." ++ String.ofList (fractionDigits places remainder) ++ unit

def text (d : Duration) : String :=
  if 1000000000 ≤ d.nanos then d.inUnit 9 "s"
  else if 1000000 ≤ d.nanos then d.inUnit 6 "ms"
  else if 1000 ≤ d.nanos then d.inUnit 3 "µs"
  else d.inUnit 0 "ns"

/-- The span in whole milliseconds, rounded up as a timer does. -/
def ceilMillis (d : Duration) : Nat := (d.nanos + 999999) / 1000000

end Duration

end RemoteEval
