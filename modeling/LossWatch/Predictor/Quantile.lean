/-!
Quantiles of the standard normal distribution by a rational approximation, one for the middle and
one for each tail. They turn a tolerated probability of a premature timeout into the number of
standard deviations to wait beyond a forecast.
-/

namespace LossWatch.Quantile

/-- A polynomial at `x`, the leading coefficient first, by Horner's rule. -/
def polynomial (x : Float) : List Float → Float
  | [] => 0.0
  | a :: as => as.foldl (fun y b => y * x + b) a

def centralNum : List Float :=
  [-3.969683028665376e+01, 2.209460984245205e+02, -2.759285104469687e+02, 1.383577518672690e+02,
    -3.066479806614716e+01, 2.506628277459239e+00]

def centralDen : List Float :=
  [-5.447609879822406e+01, 1.615858368580409e+02, -1.556989798598866e+02, 6.680131188771972e+01,
    -1.328068155288572e+01, 1.0]

def tailNum : List Float :=
  [-7.784894002430293e-03, -3.223964580411365e-01, -2.400758277161838e+00, -2.549732539343734e+00,
    4.374664141464968e+00, 2.938163982698783e+00]

def tailDen : List Float :=
  [7.784695709041462e-03, 3.224671290700398e-01, 2.445134137142996e+00, 3.754408661907416e+00, 1.0]

/-- Below this probability, and above one less it, the tail approximation holds. -/
def tailStart : Float := 0.02425

def lowerTail (p : Float) : Float :=
  let q := (-2.0 * p.log).sqrt
  polynomial q tailNum / polynomial q tailDen

def negativeInfinity : Float := -1.0 / 0.0
def positiveInfinity : Float := 1.0 / 0.0

/-- The value below which a standard normal variable falls with probability `p`. -/
def normal (p : Float) : Float :=
  if p ≤ 0.0 then negativeInfinity
  else if 1.0 ≤ p then positiveInfinity
  else if p < tailStart then lowerTail p
  else if p ≤ 1.0 - tailStart then
    let q := p - 0.5
    let r := q * q
    polynomial r centralNum * q / polynomial r centralDen
  else -lowerTail (1.0 - p)

end LossWatch.Quantile
