/-!
Instants and spans of time. An instant counts microseconds from the start of a session in 64 bits
and saturates at both ends, so a late or reordered event never yields a negative span. A span
counts nanoseconds, because a span divided by a step count keeps its fraction of a microsecond.
-/

namespace LossWatch

/-- The largest 64-bit number of microseconds. -/
@[noinline] def lastMicros : Nat := 18446744073709551615

/-- A span of time in nanoseconds. Nothing bounds it here: what a session measures, predicts or is
configured with lies far below 2^64 seconds, where a count of seconds in 64 bits would end. -/
structure Duration where
  nanos : Nat
deriving DecidableEq

namespace Duration

def zero : Duration := ⟨0⟩
def ofMicros (n : Nat) : Duration := ⟨n * 1000⟩
def ofMillis (n : Nat) : Duration := ⟨n * 1000000⟩
def ofSeconds (n : Nat) : Duration := ⟨n * 1000000000⟩

def micros (d : Duration) : Nat := d.nanos / 1000

def wholeSeconds (d : Duration) : Nat := d.nanos / 1000000000

def subsecNanos (d : Duration) : Nat := d.nanos % 1000000000

instance : Add Duration := ⟨fun a b => ⟨a.nanos + b.nanos⟩⟩
instance : LE Duration := ⟨fun a b => a.nanos ≤ b.nanos⟩
instance : LT Duration := ⟨fun a b => a.nanos < b.nanos⟩
instance (a b : Duration) : Decidable (a ≤ b) := inferInstanceAs (Decidable (a.nanos ≤ b.nanos))
instance (a b : Duration) : Decidable (a < b) := inferInstanceAs (Decidable (a.nanos < b.nanos))

def times (d : Duration) (n : Nat) : Duration := ⟨d.nanos * n⟩

def share (d : Duration) (n : Nat) : Duration := ⟨d.nanos / n⟩

/-- Seconds as a double: whole seconds and the fraction are converted apart, then added. -/
def seconds (d : Duration) : Float :=
  d.wholeSeconds.toUInt64.toFloat + d.subsecNanos.toUInt64.toFloat / 1000000000.0

end Duration

/-- An instant in microseconds since the start of the session. -/
structure Timestamp where
  micros : Nat
  le_last : micros ≤ lastMicros := by decide
deriving DecidableEq

namespace Timestamp

theorem ext_micros {a b : Timestamp} (h : a.micros = b.micros) : a = b := by
  cases a; cases b; cases h; rfl

def zero : Timestamp := ⟨0, by decide⟩

def last : Timestamp := ⟨lastMicros, by decide⟩

def ofMillis (n : Nat) : Timestamp := ⟨min (n * 1000) lastMicros, Nat.min_le_right ..⟩

/-- Later than the last instant means the last instant. -/
def ofNat (n : Nat) : Timestamp := ⟨min n lastMicros, Nat.min_le_right ..⟩

instance : Inhabited Timestamp := ⟨zero⟩
instance : LE Timestamp := ⟨fun a b => a.micros ≤ b.micros⟩
instance : LT Timestamp := ⟨fun a b => a.micros < b.micros⟩
instance (a b : Timestamp) : Decidable (a ≤ b) := inferInstanceAs (Decidable (a.micros ≤ b.micros))
instance (a b : Timestamp) : Decidable (a < b) := inferInstanceAs (Decidable (a.micros < b.micros))
instance : Max Timestamp := ⟨fun a b => if a ≤ b then b else a⟩
instance : Min Timestamp := ⟨fun a b => if a ≤ b then a else b⟩

/-- Only the whole microseconds of a span move an instant. -/
def after (t : Timestamp) (d : Duration) : Timestamp := ofNat (t.micros + d.micros)

def before (t : Timestamp) (d : Duration) : Timestamp :=
  ⟨t.micros - d.micros, Nat.le_trans (Nat.sub_le ..) t.le_last⟩

/-- The span from `earlier` to `t`, zero if `t` is not later. -/
def since (t earlier : Timestamp) : Duration := .ofMicros (t.micros - earlier.micros)

def ofClock (start reading : Duration) : Timestamp :=
  ofNat (⟨reading.nanos - start.nanos⟩ : Duration).micros

/-- Moves an instant either way, stopping at both ends. -/
def offset (t : Timestamp) (d : Int) : Timestamp := ofNat (t.micros + d).toNat

/-- The signed 64-bit number that is left of any other. -/
def signedWord (n : Int) : Int := n.bmod 18446744073709551616

def signedSince (t earlier : Timestamp) : Int :=
  signedWord (signedWord t.micros - signedWord earlier.micros)

/-- The earliest instant at which a timer may be set from `now`: a deadline that has passed
already is moved just past `now`. -/
def futureDeadline (now deadline : Timestamp) : Timestamp := max deadline (now.after (.ofMicros 1))

theorem micros_max (a b : Timestamp) : (max a b).micros = max a.micros b.micros := by
  show (if a ≤ b then b else a).micros = _
  by_cases h : a.micros ≤ b.micros
  · rw [if_pos (show a ≤ b from h), Nat.max_eq_right h]
  · rw [if_neg (show ¬ a ≤ b from h), Nat.max_eq_left (by omega)]

theorem lt_futureDeadline {now : Timestamp} (deadline : Timestamp)
    (h : now.micros < lastMicros) : now.micros < (futureDeadline now deadline).micros := by
  have : (now.after (.ofMicros 1)).micros = now.micros + 1 := by
    simp only [after, ofNat, Duration.micros, Duration.ofMicros]; omega
  rw [futureDeadline, micros_max, this]; omega

end Timestamp
end LossWatch
