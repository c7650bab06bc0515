import LossWatch.Proofs.Estimator.Building
import LossWatch.Proofs.Estimator.Counting
import LossWatch.Proofs.Sliding
import Mathlib.Data.List.Induction

/-!
What a moving average remembers. Its samples are the last ones since the reset, so after as many as its
window holds the forecast no longer depends on what came before. Each error is taken against a forecast,
so it takes as many samples again until the window of errors depends on them alone.
-/

namespace LossWatch

theorem Window.ext_values {w w' : Window} (hcapacity : w.capacity = w'.capacity)
    (hvalues : w.values = w'.values) : w = w' := by
  cases w; cases w'; cases hcapacity; cases hvalues; rfl

inductive PredictorOp
  | insert (sample : Duration)
  | reset

def PredictorOp.addTo (samples : List Duration) : PredictorOp → List Duration
  | insert sample => samples ++ [sample]
  | reset => []

def samplesSinceReset (ops : List PredictorOp) : List Duration := ops.foldl PredictorOp.addTo []

namespace MovingAverage

variable {m a b : MovingAverage} {history bias : Nat} {p : Float} {errors : List Float}
  {samples recent xs ys : List Duration}

def perform (m : MovingAverage) : PredictorOp → MovingAverage
  | .insert sample => m.insert sample
  | .reset => m.reset

def after (m : MovingAverage) (ops : List PredictorOp) : MovingAverage := ops.foldl perform m

def insertAll (m : MovingAverage) (samples : List Duration) : MovingAverage :=
  samples.foldl insert m

/-- The error that the sample shows: how far it lies from what was forecast, if anything was. -/
def miss (m : MovingAverage) (sample : Duration) : List Float :=
  (m.forecast.map (Predictor.sampleMicros sample - ·)).toList

def misses (m : MovingAverage) : List Duration → List Float
  | [] => []
  | sample :: samples => m.miss sample ++ (m.insert sample).misses samples

theorem insertAll_append (m : MovingAverage) (xs ys : List Duration) :
    m.insertAll (xs ++ ys) = (m.insertAll xs).insertAll ys := List.foldl_append

theorem misses_append (m : MovingAverage) (xs ys : List Duration) :
    m.misses (xs ++ ys) = m.misses xs ++ (m.insertAll xs).misses ys := by
  induction xs generalizing m with
  | nil => rfl
  | cons x xs ih =>
    rw [List.cons_append, misses, ih, misses, List.append_assoc]
    rfl

theorem length_misses (h : m.forecast.isSome) (samples : List Duration) :
    (m.misses samples).length = samples.length := by
  induction samples generalizing m with
  | nil => rfl
  | cons sample samples ih =>
    obtain ⟨forecast, hforecast⟩ := Option.isSome_iff_exists.mp h
    rw [misses, miss, hforecast, List.length_append, ih rfl, List.length_cons]
    exact Nat.add_comm ..

theorem reset_insertAll (m : MovingAverage) (samples : List Duration) :
    (m.insertAll samples).reset = m.reset := by
  induction samples generalizing m with
  | nil => rfl
  | cons sample samples ih => exact (ih _).trans (m.reset_insert sample)

theorem after_eq_insertAll (fresh : m.reset = m) (ops : List PredictorOp) :
    m.after ops = m.insertAll (samplesSinceReset ops) := by
  induction ops using List.reverseRecOn with
  | nil => rfl
  | append_singleton ops op ih =>
    have hstep : m.after (ops ++ [op]) = (m.after ops).perform op := List.foldl_concat ..
    have hsamples : samplesSinceReset (ops ++ [op]) = op.addTo (samplesSinceReset ops) :=
      List.foldl_concat ..
    rw [hstep, hsamples, ih]
    cases op with
    | insert sample => exact (m.insertAll_append _ [sample]).symm
    | reset => exact (m.reset_insertAll _).trans fresh

/-! ### The two windows -/

structure Remembers (m : MovingAverage) (history : Nat) (samples : List Duration)
    (errors : List Float) : Prop where
  capacity : m.samples.capacity = history
  errorCapacity : m.errors.capacity = history
  samples : KeepsLast history m.samples.values (samples.map Predictor.sampleMicros)
  errors : KeepsLast history m.errors.values errors

theorem Remembers.insert (h : m.Remembers history samples errors) (hpos : 0 < history)
    (sample : Duration) :
    (m.insert sample).Remembers history (samples ++ [sample]) (errors ++ m.miss sample) where
  capacity := h.capacity
  errorCapacity := by
    rw [← h.errorCapacity, MovingAverage.insert]
    cases m.forecast <;> rfl
  samples := by
    have hpushed := h.samples.slide hpos (Predictor.sampleMicros sample)
    rw [List.map_append, List.map_singleton]
    rwa [← h.capacity] at hpushed ⊢
  errors := by
    rw [MovingAverage.insert, miss]
    cases m.forecast with
    | none => simpa using h.errors
    | some forecast =>
      have hpushed := h.errors.slide hpos (Predictor.sampleMicros sample - forecast)
      rwa [← h.errorCapacity] at hpushed ⊢

theorem Remembers.insertAll (h : m.Remembers history samples errors) (hpos : 0 < history)
    (more : List Duration) :
    (m.insertAll more).Remembers history (samples ++ more) (errors ++ m.misses more) := by
  induction more generalizing m samples errors with
  | nil =>
    rw [misses, List.append_nil, List.append_nil]
    exact h
  | cons sample more ih =>
    have hrest := ih (h.insert hpos sample)
    rw [List.append_assoc, List.append_assoc, List.singleton_append] at hrest
    exact hrest

theorem remembers_of_built (built : ofConstants history bias p = .ok m) :
    m.reset = m ∧ 0 < history ∧ m.Remembers history [] [] := by
  obtain ⟨_, hchecked, hm⟩ := Except.bind_eq_ok.mp built
  have hpos : history ≠ 0 := by
    rintro rfl
    cases hchecked
  obtain rfl := Except.ok.inj hm
  exact ⟨rfl, Nat.pos_of_ne_zero hpos, rfl, rfl, .nil, .nil⟩

/-! ### Runs that forecast the same -/

/-- Both forecast the same, now and whatever they are told. -/
structure ForecastsAs (a b : MovingAverage) : Prop where
  samples : a.samples = b.samples
  marginFactor : a.marginFactor = b.marginFactor
  forecast : a.forecast = b.forecast
  prediction : a.prediction = b.prediction

namespace ForecastsAs

theorem of_insert {x y : Duration} (hsamples : (a.insert x).samples = (b.insert y).samples)
    (hmargin : a.marginFactor = b.marginFactor) : (a.insert x).ForecastsAs (b.insert y) where
  samples := hsamples
  marginFactor := hmargin
  forecast := congrArg (fun w : Window => some w.mean) hsamples
  prediction := by
    show (a.insert x).samples.mean + a.marginFactor * (a.insert x).samples.stdDev =
      (b.insert y).samples.mean + b.marginFactor * (b.insert y).samples.stdDev
    rw [hsamples, hmargin]

theorem insert (h : a.ForecastsAs b) (sample : Duration) :
    (a.insert sample).ForecastsAs (b.insert sample) :=
  of_insert (congrArg (Window.push · _) h.samples) h.marginFactor

theorem perform (h : a.ForecastsAs b) (op : PredictorOp) :
    (a.perform op).ForecastsAs (b.perform op) := by
  cases op with
  | insert sample => exact h.insert sample
  | reset => exact ⟨congrArg Window.clear h.samples, h.marginFactor, rfl, rfl⟩

theorem after (h : a.ForecastsAs b) (ops : List PredictorOp) :
    (a.after ops).ForecastsAs (b.after ops) := by
  induction ops generalizing a b with
  | nil => exact h
  | cons op ops ih => exact ih (h.perform op)

theorem misses (h : a.ForecastsAs b) (samples : List Duration) :
    a.misses samples = b.misses samples := by
  induction samples generalizing a b with
  | nil => rfl
  | cons sample samples ih =>
    rw [MovingAverage.misses, MovingAverage.misses, miss, miss, h.forecast, ih (h.insert sample)]

theorem errors_after (h : a.ForecastsAs b) (herrors : a.errors = b.errors)
    (ops : List PredictorOp) : (a.after ops).errors = (b.after ops).errors := by
  induction ops generalizing a b with
  | nil => exact herrors
  | cons op ops ih =>
    refine ih (h.perform op) ?_
    cases op with
    | insert sample =>
      rw [MovingAverage.perform, MovingAverage.perform, MovingAverage.insert, MovingAverage.insert,
        h.forecast, herrors]
    | reset => exact congrArg Window.clear herrors

end ForecastsAs

theorem forecast_insertAll (h : samples ≠ []) : (m.insertAll samples).forecast.isSome := by
  obtain ⟨init, last, rfl⟩ := (List.eq_nil_or_concat' samples).resolve_left h
  rw [insertAll_append]
  rfl

theorem forecastsAs_of_samples (hxs : xs ≠ []) (hys : ys ≠ [])
    (h : (m.insertAll xs).samples = (m.insertAll ys).samples) :
    (m.insertAll xs).ForecastsAs (m.insertAll ys) := by
  obtain ⟨xs, x, rfl⟩ := (List.eq_nil_or_concat' xs).resolve_left hxs
  obtain ⟨ys, y, rfl⟩ := (List.eq_nil_or_concat' ys).resolve_left hys
  rw [insertAll_append, insertAll_append] at h ⊢
  have hreset := (m.reset_insertAll xs).trans (m.reset_insertAll ys).symm
  have hmargin : (m.insertAll xs).reset.marginFactor = (m.insertAll ys).reset.marginFactor :=
    congrArg marginFactor hreset
  exact .of_insert h hmargin

/-- As many samples as the window holds settle what is forecast. -/
theorem Remembers.forecastsAs (h : m.Remembers history [] []) (hpos : 0 < history)
    (hxs : recent <:+ xs) (hys : recent <:+ ys) (hrecent : history ≤ recent.length) :
    (m.insertAll xs).ForecastsAs (m.insertAll ys) := by
  have hx := h.insertAll hpos xs
  have hy := h.insertAll hpos ys
  have hne : recent ≠ [] := List.ne_nil_of_length_pos (Nat.lt_of_lt_of_le hpos hrecent)
  refine forecastsAs_of_samples (hxs.ne_nil hne) (hys.ne_nil hne) (Window.ext_values ?_ ?_)
  · exact hx.capacity.trans hy.capacity.symm
  · refine hx.samples.eq_of_suffix hy.samples (hxs.map _) (hys.map _) ?_
    rw [List.length_map]
    exact hrecent

/-- As many samples again settle the errors. -/
theorem Remembers.errors_eq (h : m.Remembers history [] []) (hpos : 0 < history)
    (hxs : recent <:+ xs) (hys : recent <:+ ys) (hrecent : 2 * history ≤ recent.length) :
    (m.insertAll xs).errors = (m.insertAll ys).errors := by
  -- The first part of the recent samples settles the forecasts that the second part is compared with.
  obtain ⟨older, hxs⟩ := hxs
  obtain ⟨older', hys⟩ := hys
  obtain ⟨first, second, rfl, hfirst, hsecond⟩ : ∃ first second, recent = first ++ second ∧
      history ≤ first.length ∧ history ≤ second.length := by
    refine ⟨recent.take history, recent.drop history, (List.take_append_drop ..).symm, ?_, ?_⟩
    · rw [List.length_take]
      omega
    · rw [List.length_drop]
      omega
  rw [← List.append_assoc] at hxs hys
  have hx := h.insertAll hpos xs
  have hy := h.insertAll hpos ys
  have hsame := h.forecastsAs hpos (List.suffix_append older first)
    (List.suffix_append older' first) hfirst
  have hshown : m.misses xs = m.misses (older ++ first) ++
      (m.insertAll (older ++ first)).misses second := by rw [← hxs, misses_append]
  have hshown' : m.misses ys = m.misses (older' ++ first) ++
      (m.insertAll (older ++ first)).misses second := by rw [← hys, misses_append, hsame.misses]
  have hlength : ((m.insertAll (older ++ first)).misses second).length = second.length := by
    apply length_misses
    apply forecast_insertAll
    exact List.append_ne_nil_of_right_ne_nil _
      (List.ne_nil_of_length_pos (Nat.lt_of_lt_of_le hpos hfirst))
  refine Window.ext_values (hx.errorCapacity.trans hy.errorCapacity.symm) ?_
  refine hx.errors.eq_of_suffix hy.errors ?_ ?_ (hlength ▸ hsecond)
  · rw [hshown]
    exact List.suffix_append ..
  · rw [hshown']
    exact List.suffix_append ..

/-- Runs that end with the same samples since their last resets forecast the same if these are as many
as the average takes, and have the same errors if they are twice as many. Whatever is told to both
later, the samples before never show again. -/
theorem earlier_samples_forgotten (built : ofConstants history bias p = .ok m)
    (ops ops' : List PredictorOp) (ends : recent <:+ samplesSinceReset ops)
    (ends' : recent <:+ samplesSinceReset ops') (later : List PredictorOp) :
    let a := (m.after ops).after later
    let b := (m.after ops').after later
    (history ≤ recent.length → a.mean = b.mean ∧
      (Predictor.movingAverage a).prediction = (Predictor.movingAverage b).prediction) ∧
    (2 * history ≤ recent.length →
      (Predictor.movingAverage a).errorMean = (Predictor.movingAverage b).errorMean ∧
      (Predictor.movingAverage a).errorStdDev = (Predictor.movingAverage b).errorStdDev) := by
  intro a b
  obtain ⟨fresh, hpos, hm⟩ := remembers_of_built built
  have hforecasts (hrecent : history ≤ recent.length) :
      (m.after ops).ForecastsAs (m.after ops') := by
    rw [after_eq_insertAll fresh, after_eq_insertAll fresh]
    exact hm.forecastsAs hpos ends ends' hrecent
  constructor
  · intro hrecent
    have hsame : a.ForecastsAs b := (hforecasts hrecent).after later
    exact ⟨congrArg Window.mean hsame.samples, congrArg Predictor.toSpan hsame.prediction⟩
  · intro hrecent
    have herrors : (m.after ops).errors = (m.after ops').errors := by
      rw [after_eq_insertAll fresh, after_eq_insertAll fresh]
      exact hm.errors_eq hpos ends ends' hrecent
    have hsame : a.errors = b.errors := (hforecasts (by omega)).errors_after herrors later
    exact ⟨congrArg Window.mean hsame, congrArg Window.stdDev hsame⟩

/-- An average of two samples, once after a second of silence and once after a reset: four samples
later nothing tells the two apart, and nothing will. -/
theorem earlier_samples_forgotten_of_pairs :
    let m : MovingAverage := {
      samples := { capacity := 2 }, errors := { capacity := 2 }, biasSamples := 1
      marginFactor := Predictor.marginFactor 0.5 }
    let recent : List Duration := [.ofMillis 10, .ofMillis 20, .ofMillis 15, .ofMillis 40]
    let ops := PredictorOp.insert (.ofSeconds 1) :: recent.map .insert
    let ops' := [.insert (.ofSeconds 9), .reset, .insert (.ofMillis 7)] ++ recent.map .insert
    let a := (m.after ops).insert (.ofMillis 30)
    let b := (m.after ops').insert (.ofMillis 30)
    ofConstants 2 1 0.5 = .ok m ∧ recent <:+ samplesSinceReset ops ∧
      recent <:+ samplesSinceReset ops' ∧ 2 * 2 ≤ recent.length ∧
      (a.mean = b.mean ∧
        (Predictor.movingAverage a).prediction = (Predictor.movingAverage b).prediction) ∧
      (Predictor.movingAverage a).errorMean = (Predictor.movingAverage b).errorMean ∧
      (Predictor.movingAverage a).errorStdDev = (Predictor.movingAverage b).errorStdDev := by
  intro m recent ops ops' a b
  have built : ofConstants 2 1 0.5 = .ok m := by
    rw [ofConstants, Predictor.checkConstants, if_neg (by decide), if_neg (by decide),
      if_neg (by decide +kernel)]
    rfl
  have ends : recent <:+ samplesSinceReset ops := by decide
  have ends' : recent <:+ samplesSinceReset ops' := by decide
  have hsame := earlier_samples_forgotten built ops ops' ends ends' [.insert (.ofMillis 30)]
  exact ⟨built, ends, ends', by decide, hsame.1 (by decide), hsame.2 (by decide)⟩

end MovingAverage
end LossWatch
