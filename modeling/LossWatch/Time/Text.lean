import LossWatch.Time
import LossWatch.Decimal.Fixed

/-!
The written forms of instants and spans. An instant is written in milliseconds with three places;
a span in the largest unit that gives it a whole part, its fraction without trailing zeros.
-/

namespace LossWatch

def Timestamp.text (t : Timestamp) : String :=
  toString (t.micros / 1000) ++ "." ++ Decimal.zeroPadded 3 (t.micros % 1000) ++ "ms"

def Timestamp.debugText (t : Timestamp) : String := s!"Timestamp({t.micros}us)"

namespace Duration

/-- A whole part and a fraction of `places` digits, of which trailing zeros are left out. -/
def withFraction (whole fraction places : Nat) : String :=
  let digits := (Decimal.zeroPadded places fraction).toList.reverse.dropWhile (· == '0')
  toString whole ++ if digits.isEmpty then "" else "." ++ String.ofList digits.reverse

def text (d : Duration) : String :=
  let n := d.nanos
  if 1000000000 ≤ n then withFraction (n / 1000000000) (n % 1000000000) 9 ++ "s"
  else if 1000000 ≤ n then withFraction (n / 1000000) (n % 1000000) 6 ++ "ms"
  else if 1000 ≤ n then withFraction (n / 1000) (n % 1000) 3 ++ "µs"
  else toString n ++ "ns"

end Duration
end LossWatch
