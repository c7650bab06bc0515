import LossWatch.CommandLine.Options
import LossWatch.Replay
import LossWatch.Report.Text
import LossWatch.Scenario.Toml

/-!
The simulator as a program. What it does depends on its arguments and on one file at most, which it
reads or writes; the rest is a function from these to texts and an exit code.
-/

namespace LossWatch.CommandLine

structure Exit where
  code : Nat := 0
  output : String := ""
  errors : String := ""

/-- What is left to do: nothing, or first a file. A failed access gives its reason. -/
inductive Job
  | exit (e : Exit)
  | write (path text : String) (andThen : Option String → Exit)
  | read (path : String) (andThen : Except String String → Exit)

def helpEntry (forms : String) (purpose : String) : String :=
  "  " ++ forms ++ "\n          " ++ purpose ++ "\n"

def helpText : String :=
  "MPRTP loss detection simulator\n\nUsage: mprtp-sim [OPTIONS]\n\nOptions:\n" ++ String.join [
    helpEntry "-c, --config <CONFIG>"
      "Configuration file (TOML); the built-in example is used when absent",
    helpEntry "    --write-example <WRITE_EXAMPLE>"
      "Write the example configuration to this path and exit",
    helpEntry "-e, --estimator <ESTIMATOR>" "Primary estimator (single-path, cross-path)",
    helpEntry "    --comparison <COMPARISON>" "Comparison estimator",
    helpEntry "-p, --predictor <PREDICTOR>" "Predictor (ma, ar2)",
    helpEntry "-n, --packets <PACKETS>" "Packets to simulate",
    helpEntry "    --loss <LOSS>" "Loss probability applied to every flow",
    helpEntry "-s, --seed <SEED>" "RNG seed",
    helpEntry "    --compact" "Print a one-line summary instead of the full report",
    helpEntry "-v, --verbose" "Verbose output",
    helpEntry "-h, --help" "Print help"]

def usageText : String := "Usage: mprtp-sim [OPTIONS]\n\nFor more information, try '--help'.\n"

def fail (message : String) (cause : Option String := none) : Exit where
  code := 1
  errors := "Error: " ++ message ++
    (match cause with
      | some c => "\n\nCaused by:\n    " ++ c.replace "\n" "\n    "
      | none => "") ++ "\n"

def failWith (e : ScenarioFault) : Exit := fail e.message e.cause?

def override (o : Options) (s : Scenario) : Scenario :=
  { s with
    estimator := o.estimator.getD s.estimator
    comparison := o.comparison <|> s.comparison
    predictor := o.predictor.getD s.predictor
    packets := o.packets.getD s.packets
    flows := match o.loss with
      | some loss => s.flows.map ({ · with loss })
      | none => s.flows
    seed := o.seed <|> s.seed }

/-- Runs the scenario. Without a seed of its own it uses the one given here. -/
def simulate (o : Options) (seed : Nat) (s : Scenario) : Exit :=
  match o.loss.filter fun x => !isShare x.toFloat with
  | some x => fail ("Invalid loss probability: " ++ Decimal.plain x)
  | none =>
    let s := override o s
    match s.simulate (s.draws seed) with
    | .error e => failWith e
    | .ok r => { output := if o.compact then r.compactText ++ "\n" else r.text }

def loadFailure (path : String) (e : ScenarioFault) : Exit :=
  fail ("Failed to load '" ++ path ++ "': " ++ e.message)

def writeSample (path : String) : Job :=
  match Scenario.sample.toToml with
  | .error e => .exit (failWith e)
  | .ok text => .write path text fun
    | some reason => failWith (.io reason)
    | none => {}

def jobOf (o : Options) (seed : Nat) : Job :=
  match o.writeExample, o.config with
  | some path, _ => writeSample path
  | none, none => .exit (simulate o seed .sample)
  | none, some path => .read path fun
    | .error reason => loadFailure path (.io reason)
    | .ok text =>
      match Scenario.ofToml text with
      | .error e => loadFailure path e
      | .ok s => simulate o seed s

def job (args : List String) (seed : Nat) : Job :=
  match readArguments {} args with
  | .accepted o => jobOf o seed
  | .help => .exit { output := helpText }
  | .awaiting .. | .rejected => .exit { code := 2, errors := usageText }

end LossWatch.CommandLine
