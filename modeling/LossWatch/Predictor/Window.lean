/-!
A window of the last values of a series, with their mean and population standard deviation. Sums
run from the oldest value to the newest.
-/

namespace LossWatch

/-- At most `capacity` values, the oldest first. -/
structure Window where
  capacity : Nat
  values : List Float := []

namespace Window

/-- Appends a value; a full window first gives up its oldest one. -/
def push (w : Window) (x : Float) : Window :=
  { w with
    values := (if w.values.length = w.capacity then w.values.drop 1 else w.values) ++ [x] }

def sum (xs : List Float) : Float := xs.foldl (· + ·) 0.0

def size (w : Window) : Float := w.values.length.toUInt64.toFloat

def mean (w : Window) : Float := if w.values.isEmpty then 0.0 else sum w.values / w.size

def stdDev (w : Window) : Float :=
  if w.values.length < 2 then 0.0 else
  let mean := w.mean
  (sum (w.values.map fun x => (x - mean) * (x - mean)) / w.size).sqrt

def clear (w : Window) : Window := { w with values := [] }

end Window
end LossWatch
