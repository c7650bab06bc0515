/-!
Sixteen-bit sequence numbers. One number is newer than another when it lies less than half the
space ahead of it, so comparison survives the wrap. Two numbers exactly half the space apart are
on neither side of each other, and the signed distance between them is -32768 both ways.
-/

namespace LossWatch

structure SeqNumber where
  raw : Nat
  raw_lt : raw < 65536 := by omega
deriving DecidableEq

namespace SeqNumber

def ofNat (n : Nat) : SeqNumber := ⟨n % 65536, Nat.mod_lt _ (by omega)⟩

instance : Inhabited SeqNumber := ⟨ofNat 0⟩
instance : Hashable SeqNumber := ⟨fun s => hash s.raw⟩

theorem ext_raw {a b : SeqNumber} (h : a.raw = b.raw) : a = b := by
  cases a; cases b; cases h; rfl

@[simp] theorem ofNat_raw (s : SeqNumber) : ofNat s.raw = s :=
  ext_raw (Nat.mod_eq_of_lt s.raw_lt)

def add (s : SeqNumber) (n : Nat) : SeqNumber := ofNat (s.raw + n)
def sub (s : SeqNumber) (n : Nat) : SeqNumber := ofNat (s.raw + (65536 - n % 65536))
def next (s : SeqNumber) : SeqNumber := s.add 1
def prev (s : SeqNumber) : SeqNumber := s.sub 1

/-- The signed way from `a` forward to `b`, at least -32768 and below 32768. -/
def distance (a b : SeqNumber) : Int := ((b.raw : Int) - a.raw).bmod 65536

/-- How far `a` lies ahead of `b`, going only forward. -/
def ahead (a b : SeqNumber) : Nat := (a.raw + 65536 - b.raw) % 65536

/-- `a` lies ahead of `b` by less than half the space. -/
def newer (a b : SeqNumber) : Bool := 0 < a.ahead b && a.ahead b < 32768

def newerOrEqual (a b : SeqNumber) : Bool := a == b || a.newer b
def older (a b : SeqNumber) : Bool := b.newer a

def newest (a b : SeqNumber) : SeqNumber := if b.newer a then b else a

/-- The numbers strictly between `a` and `b`, going forward; none if `b` is not ahead. -/
def between (a b : SeqNumber) : List SeqNumber :=
  (List.range' 1 (max (a.distance b) 1 - 1).toNat).map a.add

/-- The order of the raw values, which only serves to list numbers in a fixed order. -/
def rawLess (a b : SeqNumber) : Bool := a.raw < b.raw

def debugText (s : SeqNumber) : String := s!"SeqNumber({s.raw})"

instance : ToString SeqNumber := ⟨fun s => toString s.raw⟩

end SeqNumber
end LossWatch
