import LossWatch.Decimal.Binary64

/-!
The options of the simulator. An option has a long name and perhaps a short one; short flags may be
written together, and a value may be attached to its option or follow it. A following value does not
look like an option itself, nothing is given twice, and there are no other arguments.
-/

namespace LossWatch.CommandLine

structure Options where
  config : Option String := none
  /-- Where to write the sample scenario instead of running one. -/
  writeExample : Option String := none
  estimator : Option String := none
  comparison : Option String := none
  predictor : Option String := none
  packets : Option Nat := none
  loss : Option Binary64 := none
  seed : Option Nat := none
  compact : Bool := false
  verbose : Bool := false

inductive Flag
  | help
  | compact
  | verbose
deriving DecidableEq

inductive Setting
  | config
  | writeExample
  | estimator
  | comparison
  | predictor
  | packets
  | loss
  | seed
deriving DecidableEq

inductive Switch
  | flag (f : Flag)
  | setting (s : Setting)

def switches : List (Option Char × String × Switch) := [
  (some 'c', "config", .setting .config),
  (none, "write-example", .setting .writeExample),
  (some 'e', "estimator", .setting .estimator),
  (none, "comparison", .setting .comparison),
  (some 'p', "predictor", .setting .predictor),
  (some 'n', "packets", .setting .packets),
  (none, "loss", .setting .loss),
  (some 's', "seed", .setting .seed),
  (none, "compact", .flag .compact),
  (some 'v', "verbose", .flag .verbose),
  (some 'h', "help", .flag .help)]

def switchOfLetter (c : Char) : Option Switch := (switches.find? (·.1 == some c)).map (·.2.2)
def switchOfName (name : String) : Option Switch := (switches.find? (·.2.1 == name)).map (·.2.2)

def isDigit (c : Char) : Bool := '0' ≤ c && c ≤ '9'

def digitsValue (cs : List Char) : Nat := cs.foldl (fun n c => n * 10 + (c.toNat - 48)) 0

/-- A 64-bit number in decimal, a plus sign allowed before it. -/
def wordOf (s : String) : Option Nat :=
  let ds := match s.toList with
    | '+' :: ds => ds
    | ds => ds
  let n := digitsValue ds
  if ds != [] && ds.all isDigit && n ≤ 18446744073709551615 then some n else none

/-- A decimal's exponent with its letter; none at all is zero. -/
def exponentOf : List Char → Option Int
  | [] => some 0
  | c :: cs =>
    let (negative, ds) := match cs with
      | '-' :: ds => (true, ds)
      | '+' :: ds => (false, ds)
      | ds => (false, ds)
    if (c == 'e' || c == 'E') && ds != [] && ds.all isDigit then
      some (if negative then -(digitsValue ds : Int) else digitsValue ds)
    else none

/-- A number with a sign, a point and an exponent, each of which may be missing, or the name of a
number that is not finite. -/
def numberOf (s : String) : Option Binary64 :=
  let (negative, cs) := match s.toList with
    | '-' :: cs => (true, cs)
    | '+' :: cs => (false, cs)
    | cs => (false, cs)
  let name := (String.ofList cs).toLower
  if name == "inf" || name == "infinity" then some (.infinity negative)
  else if name == "nan" then some (.nan negative)
  else
    let (whole, rest) := cs.span isDigit
    let (fraction, rest) := match rest with
      | '.' :: rest => rest.span isDigit
      | rest => ([], rest)
    if whole == [] && fraction == [] then none else
    (exponentOf rest).map fun e =>
      .ofDecimal negative (digitsValue (whole ++ fraction)) (e - fraction.length)

/-- Gives a text to a setting that has none yet. -/
def once {α : Type} (old : Option α) (new : Option α) : Option (Option α) :=
  if old.isSome || new.isNone then none else some new

def pathOf (s : String) : Option String := if s.isEmpty then none else some s

namespace Options

def set (o : Options) (value : String) : Setting → Option Options
  | .config => (once o.config (pathOf value)).map ({ o with config := · })
  | .writeExample => (once o.writeExample (pathOf value)).map ({ o with writeExample := · })
  | .estimator => (once o.estimator (some value)).map ({ o with estimator := · })
  | .comparison => (once o.comparison (some value)).map ({ o with comparison := · })
  | .predictor => (once o.predictor (some value)).map ({ o with predictor := · })
  | .packets => (once o.packets (wordOf value)).map ({ o with packets := · })
  | .loss => (once o.loss (numberOf value)).map ({ o with loss := · })
  | .seed => (once o.seed (wordOf value)).map ({ o with seed := · })

def raise (o : Options) : Flag → Option Options
  | .compact => if o.compact then none else some { o with compact := true }
  | .verbose => if o.verbose then none else some { o with verbose := true }
  | .help => none

end Options

/-- What one argument amounts to. A setting without a value waits for the next argument. -/
inductive Reading
  | accepted (o : Options)
  | awaiting (s : Setting) (o : Options)
  | help
  | rejected

def Reading.ofOption : Option Options → Reading
  | some o => accepted o
  | none => rejected

def readLetters (o : Options) : List Char → Reading
  | [] => .accepted o
  | c :: cs =>
    match switchOfLetter c with
    | none => .rejected
    | some (.flag .help) => .help
    | some (.flag f) =>
      match o.raise f with
      | some o => readLetters o cs
      | none => .rejected
    | some (.setting s) =>
      match cs with
      | [] => .awaiting s o
      | '=' :: value => .ofOption (o.set (String.ofList value) s)
      | value => .ofOption (o.set (String.ofList value) s)

def readName (o : Options) (cs : List Char) : Reading :=
  let (name, rest) := cs.span (· != '=')
  match switchOfName (String.ofList name), rest with
  | some (.flag .help), [] => .help
  | some (.flag f), [] => .ofOption (o.raise f)
  | some (.setting s), [] => .awaiting s o
  | some (.setting s), _ :: value => .ofOption (o.set (String.ofList value) s)
  | _, _ => .rejected

def readWord (o : Options) (arg : String) : Reading :=
  match arg.toList with
  | '-' :: '-' :: cs => readName o cs
  | '-' :: c :: cs => readLetters o (c :: cs)
  | _ => .rejected

/-- A lone dash is an ordinary value. -/
def looksLikeOption (arg : String) : Bool :=
  match arg.toList with
  | '-' :: _ :: _ => true
  | _ => false

/-- Reads the arguments from left to right; a request for help ends the reading. -/
def readArguments (o : Options) : List String → Reading
  | [] => .accepted o
  | ["--"] => .accepted o
  | arg :: rest =>
    match readWord o arg with
    | .accepted o => readArguments o rest
    | .awaiting s o =>
      match rest with
      | [] => .awaiting s o
      | value :: rest =>
        if looksLikeOption value then .rejected else
        match o.set value s with
        | some o => readArguments o rest
        | none => .rejected
    | .help => .help
    | .rejected => .rejected

end LossWatch.CommandLine
