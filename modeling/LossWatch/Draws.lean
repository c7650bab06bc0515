import LossWatch.Decimal.Binary64
import LossWatch.Draws.ChaCha

/-!
Sources of random numbers. A source yields 64-bit words one after another: from a list that starts
over at its end, from a mixed counter, or from a cipher keyed by a seed. A word becomes a share of
one by its upper 53 bits, or a value below a bound by its upper 52.
-/

namespace LossWatch

inductive Draws
  | cycle (words rest : List UInt64)
  | counter (state : UInt64)
  | cipher (key : ChaCha.Key) (number : UInt64) (words : List UInt64)

namespace Draws

def ofList (words : List UInt64) : Draws := .cycle words words

/-- Words in pairs, the first of a pair being the lower half. -/
def pairUp : List UInt32 → List UInt64
  | low :: high :: rest => (low.toUInt64 ||| (high.toUInt64 <<< 32)) :: pairUp rest
  | _ => []

/-- So many words spread from a seed by a linear congruence, each rotated by its own top bits. -/
def spread : Nat → UInt64 → List UInt32
  | 0, _ => []
  | n + 1, state =>
    let state := state * 6364136223846793005 + 11634580027462260723
    let x := (((state >>> 18) ^^^ state) >>> 27).toUInt32
    let turn := (state >>> 59).toUInt32
    ((x >>> turn) ||| (x <<< ((32 - turn) % 32))) :: spread n state

def ofSeed (seed : Nat) : Draws := .cipher (spread 8 (.ofNat seed)) 0 []

/-- The next word; a source of an empty list yields zeros. -/
def next : Draws → UInt64 × Draws
  | .cycle words (w :: rest) => (w, .cycle words rest)
  | .cycle (w :: rest) [] => (w, .cycle (w :: rest) rest)
  | .cycle [] [] => (0, .cycle [] [])
  | .counter state =>
    let state := state + 0x9e3779b97f4a7c15
    let z := (state ^^^ (state >>> 30)) * 0xbf58476d1ce4e5b9
    let z := (z ^^^ (z >>> 27)) * 0x94d049bb133111eb
    (z ^^^ (z >>> 31), .counter state)
  | .cipher key number (w :: rest) => (w, .cipher key number rest)
  | .cipher key number [] =>
    match pairUp (ChaCha.block key number) with
    | w :: rest => (w, .cipher key (number + 1) rest)
    | [] => (0, .cipher key (number + 1) [])

def share (d : Draws) : Float × Draws :=
  let (w, d) := d.next
  ((w >>> 11).toFloat * Float.ofBits 0x3ca0000000000000, d)

/-- A share of `scale`, rounded, so that it may reach `scale`. -/
def scaled (d : Draws) (scale : Float) : Float × Draws :=
  let (w, d) := d.next
  ((Float.ofBits ((w >>> 12) ||| 0x3ff0000000000000) - 1.0) * scale + 0.0, d)

/-- A value from zero up to a positive bound, the bound excluded. Rounding may reach a tiny bound;
then the next lower double is the scale of a second draw. -/
def below (d : Draws) (bound : Float) : Float × Draws :=
  let (x, d) := d.scaled bound
  if x < bound then (x, d) else d.scaled (Float.ofBits (bound.toBits - 1))

end Draws
end LossWatch
