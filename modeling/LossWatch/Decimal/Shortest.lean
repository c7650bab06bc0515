import LossWatch.Decimal.Binary64

/-!
The shortest decimal that reads back. Every double owns the interval of reals that round to it,
ends included when its significand is even. On ever finer decimal grids the two neighbours of the
double are tried; the first grid with a neighbour inside the interval wins, of two neighbours the
nearer, and of two equally near ones the upper.
-/

namespace LossWatch.Decimal

/-- A double's interval and value, all multiplied by one power of two: `low`, `value` and `high`
stand for `low * 2 ^ scale` and so on. -/
structure Span where
  low : Nat
  value : Nat
  high : Nat
  closed : Bool
  scale : Int

def Span.of (x : Binary64) : Span :=
  let m := x.significand
  let narrow := x.fraction = 0 && 1 < x.exponentField
  { low := if narrow then 4 * m - 1 else 4 * m - 2
    value := 4 * m, high := 4 * m + 2, closed := m % 2 == 0, scale := x.exponent - 2 }

/-- The neighbour of the value on the grid of multiples of `10 ^ p`, if one lies inside. -/
def Span.onGrid (s : Span) (p : Int) : Option Nat :=
  let a := Nat.pow 2 s.scale.toNat * Nat.pow 10 (-p).toNat
  let b := Nat.pow 2 (-s.scale).toNat * Nat.pow 10 p.toNat
  let inside (c : Nat) : Bool :=
    if s.closed then s.low * a ≤ c * b && c * b ≤ s.high * a
    else s.low * a < c * b && c * b < s.high * a
  let floor := s.value * a / b
  let upperNearer := b ≤ 2 * (s.value * a % b)
  match inside floor, inside (floor + 1) with
  | true, true => some (if upperNearer then floor + 1 else floor)
  | true, false => some floor
  | false, true => some (floor + 1)
  | false, false => none

def Span.search (s : Span) : Nat → Int → Nat × Int
  | 0, p => (s.value * (Nat.pow 2 s.scale.toNat * Nat.pow 10 (-p).toNat) /
      (Nat.pow 2 (-s.scale).toNat * Nat.pow 10 p.toNat), p)
  | tries + 1, p =>
    match s.onGrid p with
    | some c => (c, p)
    | none => s.search tries (p - 1)

/-- Digits `c` and power `p` of the shortest decimal `c * 10 ^ p` for a finite double. -/
def shortest (x : Binary64) : Nat × Int :=
  if x.isZero then (0, 0) else
  let s := Span.of x
  s.search 25 (((s.value.log2 : Int) + s.scale + 1) * 30103 / 100000 + 1)

/-- The digits of `c * 10 ^ p` written out with a point and no exponent. -/
def positional (c : Nat) (p : Int) : String :=
  let digits := toString c
  if 0 ≤ p then (if c = 0 then "0" else digits ++ "".pushn '0' p.toNat) else
  let places := (-p).toNat
  let padded := "".pushn '0' (places + 1 - digits.length) ++ digits
  let whole := padded.length - places
  (padded.take whole).toString ++ "." ++ (padded.drop whole).toString

/-- How numbers are written in messages: positional, a whole number without a point. -/
def plain (x : Binary64) : String :=
  if x.isNaN then "NaN" else
  let sign := if x.negative then "-" else ""
  if !x.isFinite then sign ++ "inf" else
  let (c, p) := shortest x
  sign ++ positional c p

def plainFloat (x : Float) : String := plain (.ofFloat x)

end LossWatch.Decimal
