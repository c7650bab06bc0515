/-!
Doubles as exact numbers. A finite double is a natural number times a power of two, and everything
about its text is decided on those two, in exact arithmetic. The other way, `nearest` gives the
double closest to a quotient of natural numbers, ties to the even significand.
-/

namespace LossWatch

/-- A double by its 64 bits, so that NaNs of either sign stay apart. -/
structure Binary64 where
  bits : UInt64
deriving DecidableEq

namespace Binary64

def ofFloat (x : Float) : Binary64 := ⟨x.toBits⟩
def toFloat (x : Binary64) : Float := Float.ofBits x.bits

def negative (x : Binary64) : Bool := 9223372036854775808 ≤ x.bits.toNat
def exponentField (x : Binary64) : Nat := x.bits.toNat / 4503599627370496 % 2048
def fraction (x : Binary64) : Nat := x.bits.toNat % 4503599627370496

def isFinite (x : Binary64) : Bool := x.exponentField < 2047
def isNaN (x : Binary64) : Bool := !x.isFinite && x.fraction != 0
def isZero (x : Binary64) : Bool := x.exponentField == 0 && x.fraction == 0

/-- A finite double is `significand * 2 ^ exponent`, its sign aside. -/
def significand (x : Binary64) : Nat :=
  if x.exponentField = 0 then x.fraction else x.fraction + 4503599627370496

def exponent (x : Binary64) : Int :=
  if x.exponentField = 0 then -1074 else (x.exponentField : Int) - 1075

def assemble (negative : Bool) (field fraction : Nat) : Binary64 :=
  ⟨.ofNat ((if negative then 9223372036854775808 else 0) + field * 4503599627370496 + fraction)⟩

def zero : Binary64 := assemble false 0 0
def infinity (negative : Bool) : Binary64 := assemble negative 2047 0
def nan (negative : Bool) : Binary64 := assemble negative 2047 2251799813685248

/-- The quotient rounded to the nearest whole number, ties to even. -/
def roundDiv (num den : Nat) : Nat :=
  let q := num / den
  let twice := 2 * (num % den)
  if den < twice || twice == den && q % 2 == 1 then q + 1 else q

/-- The double nearest to `num / den`. The significand is sought with 53 bits; below the normal
range the exponent stays at its least value and bits are given up. -/
def nearest (negative : Bool) (num den : Nat) : Binary64 :=
  if num = 0 then assemble negative 0 0 else
  let guess : Int := (num.log2 : Int) - den.log2 - 52
  let round (e : Int) : Nat :=
    if 0 ≤ e then roundDiv num (den <<< e.toNat) else roundDiv (num <<< (-e).toNat) den
  let small := round (max (guess - 1) (-1074))
  let e := if small < 9007199254740992 then max (guess - 1) (-1074) else max guess (-1074)
  let m := if small < 9007199254740992 then small else round e
  let (m, e) := if m = 9007199254740992 then (4503599627370496, e + 1) else (m, e)
  if 971 < e then infinity negative
  else if m < 4503599627370496 then assemble negative 0 m
  else assemble negative (e + 1075).toNat (m - 4503599627370496)

/-- The double nearest to `digits * 10 ^ exponent`. Powers of ten far outside the range of doubles
are settled by the number of digits alone. -/
def ofDecimal (negative : Bool) (digits : Nat) (exponent : Int) : Binary64 :=
  let size : Int := (toString digits).length + exponent
  if digits = 0 || size < -330 then assemble negative 0 0
  else if 310 < size then infinity negative
  else if 0 ≤ exponent then nearest negative (digits * Nat.pow 10 exponent.toNat) 1
  else nearest negative digits (Nat.pow 10 (-exponent).toNat)

/-- The whole number nearest to a double, halves away from zero, and the nearest that 64 bits with
a sign hold; 0 if it is not a number. -/
def nearestWhole (x : Binary64) : Int :=
  let size : Nat :=
    if !x.isFinite then 9223372036854775808
    else if 0 ≤ x.exponent then x.significand <<< x.exponent.toNat
    else
      let cut := (-x.exponent).toNat
      (x.significand + 1 <<< (cut - 1)) >>> cut
  if x.isNaN then 0
  else if x.negative then -(min size 9223372036854775808 : Nat)
  else (min size 9223372036854775807 : Nat)

end Binary64

namespace Decimal

/-- The double nearest to a whole number that 64 bits with a sign hold. -/
def wholeToFloat (n : Int) : Float :=
  let size := n.natAbs.toUInt64.toFloat
  if n < 0 then -size else size

def floatToWhole (x : Float) : Int := (Binary64.ofFloat x).nearestWhole

end Decimal
end LossWatch
