import LossWatch.Decimal.Shortest

/-!
Decimals with a fixed number of places. The exact value of the double is rounded, so a tie is a
true tie; it goes to the even last digit.
-/

namespace LossWatch.Decimal

/-- The value of a finite double in units of `10 ^ -places`, rounded. -/
def scaled (places : Nat) (x : Binary64) : Nat :=
  let e := x.exponent
  Binary64.roundDiv (x.significand * Nat.pow 10 places * Nat.pow 2 e.toNat) (Nat.pow 2 (-e).toNat)

def fixed (places : Nat) (x : Float) : String :=
  let x := Binary64.ofFloat x
  if x.isNaN then "NaN" else
  let sign := if x.negative then "-" else ""
  if !x.isFinite then sign ++ "inf" else
  sign ++ if places = 0 then toString (scaled 0 x) else positional (scaled places x) (-places)

def zeroPadded (width n : Nat) : String :=
  let digits := toString n
  "".pushn '0' (width - digits.length) ++ digits

def blankPadded (width n : Nat) : String :=
  let digits := toString n
  "".pushn ' ' (width - digits.length) ++ digits

end LossWatch.Decimal
