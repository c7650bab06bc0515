import LossWatch.Time.Cadence
import Mathlib.Data.List.Chain

/-!
The rhythm of a cadence. Whenever it is asked, its current period has begun and is not over, so the
next firing lies ahead by one interval at most. Asked at least once per interval it never moves its
anchor to the time of a poll: each firing starts the period where the last one ended, and the number of
firings is the number of whole intervals since the start.
-/

namespace LossWatch.Cadence

variable {c : Cadence} {n : Nat} {start now : Timestamp} {polls : List Timestamp}

theorem micros_next (hi : c.interval = .ofMicros n) :
    c.next.micros = min (c.lastFire.micros + n) lastMicros := by
  have hn : c.interval.micros = n := by
    rw [hi, Duration.micros, Duration.ofMicros]
    exact Nat.mul_div_cancel n (by decide)
  rw [next, Timestamp.after, hn]
  rfl

theorem micros_next_of_le (hi : c.interval = .ofMicros n)
    (hroom : c.lastFire.micros + n ≤ lastMicros) : c.next.micros = c.lastFire.micros + n := by
  rw [micros_next hi, Nat.min_eq_left hroom]

theorem expired_iff (hi : c.interval = .ofMicros n) (now : Timestamp) :
    c.expired now = true ↔ n ≤ now.micros - c.lastFire.micros := by
  rw [expired, hi, decide_eq_true_eq]
  show n * 1000 ≤ (now.micros - c.lastFire.micros) * 1000 ↔ _
  omega

/-! ### One poll -/

/-- What a poll does to the period: it goes on, the next one begins where it ends, or, if that is over
too, one begins with the poll. -/
theorem fire_cases (hi : c.interval = .ofMicros n) (hroom : c.lastFire.micros + n ≤ lastMicros)
    (now : Timestamp) :
    (now.micros - c.lastFire.micros < n ∧ c.fire now = (false, c)) ∨
    (n ≤ now.micros - c.lastFire.micros ∧ now.micros - (c.lastFire.micros + n) < n ∧
      c.fire now = (true, c.reset c.next)) ∨
    (n ≤ now.micros - (c.lastFire.micros + n) ∧ c.fire now = (true, c.reset now)) := by
  have hnext : (c.reset c.next).lastFire.micros = c.lastFire.micros + n :=
    micros_next_of_le hi hroom
  have hagain := expired_iff (c := c.reset c.next) hi now
  rw [hnext] at hagain
  rw [fire]
  by_cases hdue : c.expired now = true
  · rw [if_pos hdue]
    rw [expired_iff hi] at hdue
    dsimp only
    by_cases hlate : (c.reset c.next).expired now = true
    · rw [if_pos hlate]
      exact Or.inr (Or.inr ⟨hagain.mp hlate, rfl⟩)
    · rw [if_neg hlate]
      exact Or.inr (Or.inl ⟨hdue, Nat.lt_of_not_le (mt hagain.mpr hlate), rfl⟩)
  · rw [if_neg hdue]
    exact Or.inl ⟨Nat.lt_of_not_le (mt (expired_iff hi now).mpr hdue), rfl⟩

theorem fire_next (hi : c.interval = .ofMicros n) (hn : 0 < n) (hlast : c.next < .last) :
    c.fire c.next = (true, c.reset c.next) := by
  have hbefore : c.next.micros < lastMicros := hlast
  have hnext := micros_next hi
  rcases fire_cases hi (by omega) c.next with
    ⟨hopen, -⟩ | ⟨-, -, hfire⟩ | ⟨hlate, -⟩
  · omega
  · exact hfire
  · omega

theorem lt_next_reset (hi : c.interval = .ofMicros n) (hn : 0 < n) (hlast : c.next < .last) :
    c.next < (c.reset c.next).next := by
  have hbefore : c.next.micros < lastMicros := hlast
  have hnext : (c.reset c.next).next.micros = min (c.next.micros + n) lastMicros :=
    micros_next (c := c.reset c.next) hi
  show c.next.micros < (c.reset c.next).next.micros
  omega

/-- At `now` the period of `n` microseconds that the cadence counts has begun and is not over. -/
structure Counting (c : Cadence) (n : Nat) (now : Timestamp) : Prop where
  interval : c.interval = .ofMicros n
  begun : c.lastFire.micros ≤ now.micros
  lasting : now.micros < c.lastFire.micros + n

theorem counting_start (hn : 0 < n) (start : Timestamp) :
    (⟨.ofMicros n, start⟩ : Cadence).Counting n start :=
  ⟨rfl, Nat.le_refl _, Nat.lt_add_of_pos_right hn⟩

namespace Counting

variable {later : Timestamp}

theorem fire (h : c.Counting n now) (hle : now.micros ≤ later.micros)
    (hroom : later.micros + n ≤ lastMicros) : (c.fire later).2.Counting n later := by
  obtain ⟨hi, hbegun, hlasting⟩ := h
  have hkept : (c.reset c.next).lastFire.micros = c.lastFire.micros + n :=
    micros_next_of_le hi (by omega)
  rcases fire_cases hi (by omega) later with
    ⟨hopen, hfire⟩ | ⟨hdue, hopen, hfire⟩ | ⟨hlate, hfire⟩
  · rw [hfire]
    show c.Counting n later
    exact ⟨hi, by omega, by omega⟩
  · rw [hfire]
    show (c.reset c.next).Counting n later
    exact ⟨hi, by omega, by omega⟩
  · rw [hfire]
    exact ⟨hi, Nat.le_refl _, Nat.lt_add_of_pos_right (by omega)⟩

theorem lastFire_fire (h : c.Counting n now) (hsoon : later.micros ≤ now.micros + n)
    (hroom : now.micros + n ≤ lastMicros) :
    (c.fire later).2.lastFire.micros = c.lastFire.micros + (c.fire later).1.toNat * n := by
  obtain ⟨hi, hbegun, hlasting⟩ := h
  have hkept : (c.reset c.next).lastFire.micros = c.lastFire.micros + n :=
    micros_next_of_le hi (by omega)
  rcases fire_cases hi (by omega) later with
    ⟨hopen, hfire⟩ | ⟨hdue, hopen, hfire⟩ | ⟨hlate, hfire⟩
  · rw [hfire, Bool.toNat_false, Nat.zero_mul, Nat.add_zero]
  · rw [hfire, Bool.toNat_true, Nat.one_mul]
    exact hkept
  · omega

theorem lt_next (h : c.Counting n now) (hroom : now.micros + n ≤ lastMicros) :
    now < c.next ∧ c.next.micros = c.lastFire.micros + n ∧ c.next.micros ≤ now.micros + n := by
  obtain ⟨hi, hbegun, hlasting⟩ := h
  have hnext : c.next.micros = c.lastFire.micros + n :=
    micros_next_of_le hi (by omega)
  have hlt : now.micros < c.next.micros := by omega
  exact ⟨hlt, hnext, by omega⟩

end Counting

/-! ### Polls in a row -/

def after (c : Cadence) (polls : List Timestamp) : Cadence :=
  polls.foldl (fun c now => (c.fire now).2) c

def firings : Cadence → List Timestamp → Nat
  | _, [] => 0
  | c, now :: polls => (c.fire now).1.toNat + (c.fire now).2.firings polls

theorem Counting.after (h : c.Counting n now) (hordered : (now :: polls).IsChain (· ≤ ·))
    (hroom : ∀ t ∈ polls, t.micros + n ≤ lastMicros) :
    (c.after polls).Counting n (polls.getLastD now) := by
  induction polls generalizing c now with
  | nil => exact h
  | cons t polls ih =>
    obtain ⟨hle, hordered⟩ := List.isChain_cons_cons.mp hordered
    rw [List.getLastD_cons]
    exact ih (h.fire hle (hroom t List.mem_cons_self)) hordered fun u hu =>
      hroom u (List.mem_cons_of_mem t hu)

theorem Counting.lastFire_after (h : c.Counting n now) (hordered : (now :: polls).IsChain (· ≤ ·))
    (hroom : ∀ t ∈ now :: polls, t.micros + n ≤ lastMicros)
    (hsoon : (now :: polls).IsChain fun a b => b.micros ≤ a.micros + n) :
    (c.after polls).lastFire.micros = c.lastFire.micros + c.firings polls * n := by
  induction polls generalizing c now with
  | nil => exact (Nat.add_eq_left.mpr (Nat.zero_mul n)).symm
  | cons t polls ih =>
    obtain ⟨hle, hordered⟩ := List.isChain_cons_cons.mp hordered
    obtain ⟨hstep, hsoon⟩ := List.isChain_cons_cons.mp hsoon
    have hrest := fun u hu => hroom u (List.mem_cons_of_mem now hu)
    have hfirst := h.lastFire_fire hstep (hroom now List.mem_cons_self)
    have hlater := ih (h.fire hle (hrest t List.mem_cons_self)) hordered hrest hsoon
    calc (c.after (t :: polls)).lastFire.micros
        = (c.fire t).2.lastFire.micros + (c.fire t).2.firings polls * n := hlater
      _ = c.lastFire.micros + (c.fire t).1.toNat * n + (c.fire t).2.firings polls * n := by
          rw [hfirst]
      _ = c.lastFire.micros + c.firings (t :: polls) * n := by
          rw [firings, Nat.add_mul, Nat.add_assoc]

/-- After any polls in order of time, `now` being the time of the last one, the next firing lies after
`now` and at most an interval ahead. If no poll was more than an interval after the one before, the
first counted from the start, the cadence has fired once per whole interval since the start, and the
next firing is the end of the interval that `now` lies in. -/
theorem fires_once_per_interval (positive : 0 < n) (ordered : (start :: polls).IsChain (· ≤ ·))
    (early : ∀ t ∈ start :: polls, t.micros + 2 * n ≤ lastMicros) :
    let c : Cadence := ⟨.ofMicros n, start⟩
    let now := polls.getLastD start
    now < (c.after polls).next ∧ (c.after polls).next.micros ≤ now.micros + n ∧
      ((start :: polls).IsChain (fun a b => b.micros ≤ a.micros + n) →
        c.firings polls = (now.micros - start.micros) / n ∧
        (c.after polls).next.micros = start.micros + (c.firings polls + 1) * n) := by
  intro c now
  have hroom : ∀ t ∈ start :: polls, t.micros + n ≤ lastMicros := fun t ht => by
    have := early t ht
    omega
  have hstart : c.Counting n start := counting_start positive start
  have hnow : now ∈ start :: polls := by
    have hlast : (start :: polls).getLast? = some now := by
      rw [List.getLast?_cons, ← List.getLastD_eq_getLast?]
    exact List.mem_of_getLast? hlast
  have hcounting : (c.after polls).Counting n now :=
    hstart.after ordered fun t ht => hroom t (List.mem_cons_of_mem start ht)
  obtain ⟨hlt, hnext, hle⟩ := hcounting.lt_next (hroom now hnow)
  refine ⟨hlt, hle, fun often => ?_⟩
  have hlastFire : (c.after polls).lastFire.micros = start.micros + c.firings polls * n :=
    hstart.lastFire_after ordered hroom often
  have hbegun := hcounting.begun
  have hlasting := hcounting.lasting
  have hsucc : (c.firings polls + 1) * n = c.firings polls * n + n := Nat.succ_mul _ n
  refine ⟨(Nat.div_eq_of_lt_le ?_ ?_).symm, ?_⟩
  · omega
  · omega
  · omega

theorem fires_once_per_interval_of_late_polls :
    let c : Cadence := ⟨.ofMicros 10000, .ofMillis 3⟩
    let polls : List Timestamp :=
      [.ofMillis 8, .ofMillis 15, .ofMillis 22, .ofMillis 23, .ofMillis 33]
    (.ofMillis 3 :: polls).IsChain (· ≤ ·) ∧
      (∀ t ∈ .ofMillis 3 :: polls, t.micros + 2 * 10000 ≤ lastMicros) ∧
      (.ofMillis 3 :: polls).IsChain (fun a b => b.micros ≤ a.micros + 10000) ∧
      c.firings polls = 3 ∧ (c.after polls).next = .ofMillis 43 := by
  intro c polls
  have ordered : (.ofMillis 3 :: polls).IsChain (· ≤ ·) := by decide
  have early : ∀ t ∈ .ofMillis 3 :: polls, t.micros + 2 * 10000 ≤ lastMicros := by decide
  have often : (.ofMillis 3 :: polls).IsChain (fun a b => b.micros ≤ a.micros + 10000) := by decide
  obtain ⟨-, -, rhythm⟩ := fires_once_per_interval (n := 10000) (by decide) ordered early
  obtain ⟨count, next⟩ := rhythm often
  have three : c.firings polls = 3 := count.trans (by decide)
  refine ⟨ordered, early, often, three, Timestamp.ext_micros ?_⟩
  rw [next, three]
  rfl

end LossWatch.Cadence
