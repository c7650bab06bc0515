import LossWatch.Text.Blank
import LossWatch.Predictor.Autoregression
import LossWatch.Predictor.MovingAverage

/-!
Predictors of the next interval between arrivals. A predictor learns from the intervals it is given
and adds a safety margin to its forecast: the lower the tolerated probability of timing out too
early, the longer the wait. A prediction means something once the predictor is ready.
-/

namespace LossWatch

inductive PredictorKind
  | movingAverage
  | autoregression
deriving DecidableEq

namespace PredictorKind

def name : PredictorKind → String
  | movingAverage => "ma"
  | autoregression => "ar2"

def ofName (s : String) : Except ConfigFault PredictorKind :=
  let w := Text.word s
  if ["ma", "moving-average", "moving_average", "movingaverage"].contains w then .ok movingAverage
  else if ["ar2", "ar-2", "autoregressive"].contains w then .ok autoregression
  else .error (.unknownPredictor s)

end PredictorKind

inductive Predictor
  | movingAverage (m : MovingAverage)
  | autoregression (a : Autoregression)

namespace Predictor

def insert (p : Predictor) (sample : Duration) : Predictor :=
  match p with
  | movingAverage m => movingAverage (m.insert sample)
  | autoregression a => autoregression (a.insert sample)

def isReady : Predictor → Bool
  | movingAverage m => m.isReady
  | autoregression a => a.isReady

def prediction : Predictor → Duration
  | movingAverage m => toSpan m.prediction
  | autoregression a => toSpan a.prediction

def errors : Predictor → Window
  | movingAverage m => m.errors
  | autoregression a => a.errors

def errorMean (p : Predictor) : Float := p.errors.mean
def errorStdDev (p : Predictor) : Float := p.errors.stdDev

def count : Predictor → Nat
  | movingAverage m => m.count
  | autoregression a => a.count

def reset : Predictor → Predictor
  | movingAverage m => movingAverage m.reset
  | autoregression a => autoregression a.reset

def kind : Predictor → PredictorKind
  | movingAverage _ => .movingAverage
  | autoregression _ => .autoregression

def name (p : Predictor) : String := p.kind.name

end Predictor

structure PredictorConfig where
  kind : PredictorKind := .movingAverage
  /-- Samples averaged, and errors remembered. -/
  historySize : Nat := 25
  /-- Samples needed before the predictor is ready. -/
  biasSamples : Nat := 5
  /-- The tolerated probability that the wait ends before the packet arrives. -/
  prematureTimeout : Float := 0.05

namespace PredictorConfig

def validate (c : PredictorConfig) : Except ConfigFault Unit :=
  Predictor.checkConstants c.historySize c.biasSamples c.prematureTimeout

def build (c : PredictorConfig) : Except ConfigFault Predictor :=
  match c.kind with
  | .movingAverage =>
    (MovingAverage.ofConstants c.historySize c.biasSamples c.prematureTimeout).map .movingAverage
  | .autoregression =>
    (Autoregression.ofConstants c.historySize c.biasSamples c.prematureTimeout).map .autoregression

end PredictorConfig
end LossWatch
