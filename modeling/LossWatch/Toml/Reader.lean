/-!
Readers take characters from the front of a text or fail, and a reader that fails takes nothing.
Here are the character classes of TOML and the readers of blanks, line ends and comments.
-/

namespace LossWatch.Toml

abbrev Reader := StateT (List Char) Option

variable {α β : Type}

def char (accepts : Char → Bool) : Reader Char := fun
  | c :: rest => if accepts c then some (c, rest) else none
  | [] => none

def skip (c : Char) : Reader Unit := discard (char (· == c))

def skipAll : List Char → Reader Unit
  | [] => pure ()
  | c :: cs => do skip c; skipAll cs

def run (accepts : Char → Bool) : Reader (List Char) := fun cs => some (cs.span accepts)

/-- Reads as often as something is taken. -/
def collect (p : Reader α) (cs : List Char) : List α × List Char :=
  match p cs with
  | none => ([], cs)
  | some (a, rest) =>
    if rest.length < cs.length then
      let (as, rest) := collect p rest
      (a :: as, rest)
    else ([], cs)
termination_by cs.length

def many (p : Reader α) : Reader (List α) := fun cs => some (collect p cs)

def separated (p : Reader α) (separator : Reader β) : Reader (List α) := do
  let first ← p
  let others ← many (separator *> p)
  return first :: others

def atEnd : Reader Unit := fun
  | [] => some ((), [])
  | _ :: _ => none

/-- Characters that a line of text may hold: the tab and all that are no control characters. -/
def isPlain (c : Char) : Bool := c == '\t' || 0x20 ≤ c.toNat && c.toNat != 0x7F

def isSpace (c : Char) : Bool := c == ' ' || c == '\t'

def spaces : Reader Unit := discard (run isSpace)

def newline : Reader Unit := skip '\n' <|> skipAll ['\r', '\n']

def comment : Reader Unit := do
  skip '#'
  discard (run isPlain)

/-- What may follow on the line of a heading or of a key and its value. -/
def lineEnd : Reader Unit := do
  spaces
  discard (optional comment)
  newline <|> atEnd

def gap : Reader Unit := do
  discard (many (discard (char isSpace) <|> newline <|> (do comment; newline)))

def digitValue? (c : Char) : Option Nat :=
  if '0' ≤ c && c ≤ '9' then some (c.toNat - 48)
  else if 'a' ≤ c && c ≤ 'f' then some (c.toNat - 87)
  else if 'A' ≤ c && c ≤ 'F' then some (c.toNat - 55)
  else none

def isDigit (base : Nat) (c : Char) : Bool :=
  match digitValue? c with
  | some d => d < base
  | none => false

def valueOf (base : Nat) (digits : List Char) : Nat :=
  digits.foldl (fun n c => n * base + (digitValue? c).getD 0) 0

/-- Digits, an underscore allowed between two of them and left out of the result. -/
def digits (base : Nat) : Reader (List Char) := do
  let first ← char (isDigit base)
  let others ← many (char (isDigit base) <|> (skip '_' *> char (isDigit base)))
  return first :: others

def digitsExactly (base : Nat) : Nat → Reader (List Char)
  | 0 => pure []
  | n + 1 => do
    let first ← char (isDigit base)
    let others ← digitsExactly base n
    return first :: others

end LossWatch.Toml
