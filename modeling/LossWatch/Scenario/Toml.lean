import LossWatch.Scenario
import LossWatch.Toml.Document
import LossWatch.Toml.Written

/-!
Scenarios as TOML. A section may leave out all that has a default, and keys that mean nothing here
are passed over. A section given as a list names its fields by position. Whole numbers do where a
number with a fraction is wanted, but not the other way round.
-/

namespace LossWatch.Scenario

open Toml

/-- The fields of a section, in the order in which a list gives them. -/
abbrev Fields := String → Option Value

def inTable (entries : List (String × Value)) : Fields := fun name => entries.lookup name

def asList : Value → Option (List Value)
  | .list items => some items
  | .rows tables => some (tables.map (Value.table .written))
  | _ => none

/-- A date has parts under names that no section knows. -/
def fieldsOf (names : List String) : Value → Option Fields
  | .table _ entries => some (inTable entries)
  | .moment => some (inTable [])
  | v => (asList v).map fun items => inTable (names.zip items)

/-- The section of a name; one that is missing has no fields. -/
def sectionOf (root : Fields) (name : String) (names : List String) : Option Fields :=
  match root name with
  | some v => fieldsOf names v
  | none => some (inTable [])

variable {α : Type}

def field (read : Value → Option α) (fields : Fields) (name : String) (default : α) : Option α :=
  match fields name with
  | some v => read v
  | none => some default

def asText : Value → Option String
  | .text s => some s
  | _ => none

def asNat (limit : Nat) : Value → Option Nat
  | .integer i => if 0 ≤ i && i ≤ limit then some i.toNat else none
  | _ => none

def asWord : Value → Option Nat := asNat 18446744073709551615
def asShort : Value → Option Nat := asNat 65535

def asNumber : Value → Option Binary64
  | .decimal x => some x
  | .integer i => some (.ofDecimal (i < 0) i.natAbs 0)
  | _ => none

def feedbackName : FeedbackMode → String
  | .nack => "nack"
  | .ack => "ack"
  | .none => "none"

def feedbackNamed (name : String) : Option FeedbackMode :=
  [.nack, .ack, .none].find? (feedbackName · == name)

def isEmptyValue : Value → Bool
  | .table _ entries => entries.isEmpty
  | .list items => items.isEmpty
  | .rows tables => tables.isEmpty
  | _ => false

/-- The name of a mode, or a table whose only key is the name and whose only value is empty. -/
def asFeedback : Value → Option FeedbackMode
  | .text s => feedbackNamed s
  | .table _ [(name, v)] => if isEmptyValue v then feedbackNamed name else none
  | _ => none

def asFlow (v : Value) : Option FlowPlan := do
  let f ← fieldsOf ["id", "interval_ms", "offset_ms", "extra_delay_ms", "jitter_ms", "loss"] v
  return {
    id := ← (f "id").bind asShort
    interval := ← (f "interval_ms").bind asNumber
    offset := ← field asNumber f "offset_ms" .zero
    delay := ← field asNumber f "extra_delay_ms" .zero
    jitter := ← field asNumber f "jitter_ms" .zero
    loss := ← field asNumber f "loss" .zero }

def ofTable? (entries : List (String × Value)) : Option Scenario := do
  let root := inTable entries
  let dflt : Scenario := { flows := [] }
  let session ← sectionOf root "session"
    ["feedback", "estimator", "comparison", "rtx_late_ms", "rtx_rtt_ms"]
  let predictor ← sectionOf root "predictor"
    ["kind", "history_size", "bias_samples", "premature_timeout_probability"]
  let simulation ← sectionOf root "simulation"
    ["packets", "report_interval_ms", "seed", "start_seq"]
  return {
    feedback := ← field asFeedback session "feedback" dflt.feedback
    estimator := ← field asText session "estimator" dflt.estimator
    comparison := ← (session "comparison").mapM asText
    rtxLateMillis := ← field asWord session "rtx_late_ms" dflt.rtxLateMillis
    rtxRttMillis := ← field asWord session "rtx_rtt_ms" dflt.rtxRttMillis
    predictor := ← field asText predictor "kind" dflt.predictor
    historySize := ← field asWord predictor "history_size" dflt.historySize
    biasSamples := ← field asWord predictor "bias_samples" dflt.biasSamples
    prematureTimeout :=
      ← field asNumber predictor "premature_timeout_probability" dflt.prematureTimeout
    flows := ← (← (root "flows").bind asList).mapM asFlow
    packets := ← field asWord simulation "packets" dflt.packets
    reportIntervalMillis := ← field asWord simulation "report_interval_ms" dflt.reportIntervalMillis
    seed := ← (simulation "seed").mapM asWord
    startSeq := .ofNat (← field asShort simulation "start_seq" dflt.startSeq.raw) }

def ofToml (text : String) : Except ScenarioFault Scenario :=
  match (Toml.read? text).bind fun t => ofTable? t.entries with
  | some s => .ok s
  | none => .error .toml

def writtenFlow (f : FlowPlan) : String :=
  Written.titled "[[flows]]" [
    ("id", toString f.id), ("interval_ms", Written.decimal f.interval),
    ("offset_ms", Written.decimal f.offset), ("extra_delay_ms", Written.decimal f.delay),
    ("jitter_ms", Written.decimal f.jitter), ("loss", Written.decimal f.loss)]

/-- The scenario as a file with all its fields. Without flows their empty list comes first, since
keys of the top level go before all headings. -/
def toToml (s : Scenario) : Except ScenarioFault String := do
  let natural (n : Nat) : Except ScenarioFault String :=
    match Written.natural? n with
    | some t => .ok t
    | none => .error .tomlSerialize
  let comparison := s.comparison.toList.map fun name => ("comparison", Written.text name)
  let session := Written.titled "[session]" ([
      ("feedback", Written.text (feedbackName s.feedback)),
      ("estimator", Written.text s.estimator)] ++ comparison ++ [
      ("rtx_late_ms", ← natural s.rtxLateMillis), ("rtx_rtt_ms", ← natural s.rtxRttMillis)])
  let predictor := Written.titled "[predictor]" [
    ("kind", Written.text s.predictor), ("history_size", ← natural s.historySize),
    ("bias_samples", ← natural s.biasSamples),
    ("premature_timeout_probability", Written.decimal s.prematureTimeout)]
  let seed ← s.seed.toList.mapM fun n => return ("seed", ← natural n)
  let simulation := Written.titled "[simulation]" ([
      ("packets", ← natural s.packets), ("report_interval_ms", ← natural s.reportIntervalMillis)]
    ++ seed ++ [("start_seq", toString s.startSeq.raw)])
  let head := if s.flows.isEmpty then ["flows = []\n"] else []
  return "\n".intercalate (head ++ [session, predictor] ++ s.flows.map writtenFlow ++ [simulation])

end LossWatch.Scenario
