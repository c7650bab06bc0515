import LossWatch.Decimal.Shortest

/-!
How TOML is written. A text takes the form that needs no escapes: plain double quotes, else single
quotes, else tripled ones, and escapes only where no form avoids them. A number with a fraction
always shows a point.
-/

namespace LossWatch.Toml.Written

/-- Control characters can only be written as escapes, the tab and the line end apart. -/
def isControl (c : Char) : Bool := c.toNat < 0x20 && c != '\t' && c != '\n' || c.toNat == 0x7F

def longestRun (c : Char) (cs : List Char) : Nat :=
  (cs.foldl (fun (run, longest) d =>
    let run := if d = c then run + 1 else 0
    (run, max longest run)) (0, 0)).2

def hexDigit (n : Nat) : Char := Char.ofNat (if n < 10 then 48 + n else 55 + n)

def escaped (c : Char) : List Char :=
  match c with
  | '\x08' => ['\\', 'b']
  | '\t' => ['\\', 't']
  | '\n' => ['\\', 'n']
  | '\x0c' => ['\\', 'f']
  | '\r' => ['\\', 'r']
  | '"' => ['\\', '"']
  | '\\' => ['\\', '\\']
  | c =>
    if isControl c then
      ['\\', 'u', '0', '0', hexDigit (c.toNat / 16), hexDigit (c.toNat % 16)]
    else [c]

/-- Between tripled double quotes the line end stands for itself, and so do quotes, except that
every third in a row is escaped; `quotes` counts those just written. -/
def blockEscaped (quotes : Nat) : List Char → List Char
  | [] => []
  | '\n' :: cs => '\n' :: blockEscaped 0 cs
  | '"' :: cs =>
    if quotes < 2 then '"' :: blockEscaped (quotes + 1) cs
    else '\\' :: '"' :: blockEscaped 0 cs
  | c :: cs => escaped c ++ blockEscaped 0 cs

/-- The text between tripled quotes; one that has several lines starts on a line of its own. -/
def block (quote : Char) (severalLines : Bool) (body : List Char) : List Char :=
  let fence := [quote, quote, quote]
  fence ++ (if severalLines then ['\n'] else []) ++ body ++ fence

def text (s : String) : String :=
  let cs := s.toList
  let control := cs.any isControl
  let backslash := cs.contains '\\'
  let severalLines := cs.contains '\n'
  let doubles := longestRun '"' cs
  let singles := longestRun '\'' cs
  let basic := '"' :: cs.flatMap escaped ++ ['"']
  String.ofList <|
    if !control && !backslash && !severalLines && doubles = 0 then basic
    else if !control && !severalLines && singles = 0 then '\'' :: cs ++ ['\'']
    else if !control && !backslash && doubles ≤ 2 then
      block '"' severalLines (blockEscaped 0 cs)
    else if !control && singles ≤ 2 then block '\'' severalLines cs
    else if severalLines then block '"' severalLines (blockEscaped 0 cs)
    else basic

/-- A NaN is written without its sign. -/
def decimal (x : Binary64) : String :=
  if x.isNaN then "nan" else
  let number := Decimal.plain x
  if x.isFinite && !number.contains '.' then number ++ ".0" else number

def natural? (n : Nat) : Option String :=
  if n ≤ 9223372036854775807 then some (toString n) else none

def titled (heading : String) (pairs : List (String × String)) : String :=
  heading ++ "\n" ++ String.join (pairs.map fun (key, value) => key ++ " = " ++ value ++ "\n")

end LossWatch.Toml.Written
