import LossWatch.Toml.Value
import LossWatch.Toml.Quoted

/-!
Values without parts: texts, numbers, truth values, dates and times. Integers have 64 bits and a
sign. A float that is too large is refused, unless it is negative, and then it is minus infinity.
-/

namespace LossWatch.Toml

/-- Two digits of a clock or calendar, in a range. -/
def twoDigits (low high : Nat) : Reader Nat := do
  let n := valueOf 10 (← digitsExactly 10 2)
  if low ≤ n && n ≤ high then return n else failure

def lastDay (year month : Nat) : Nat :=
  if month = 2 then (if year % 4 = 0 && (year % 100 != 0 || year % 400 = 0) then 29 else 28)
  else if month = 4 || month = 6 || month = 9 || month = 11 then 30 else 31

def date : Reader Unit := do
  let year := valueOf 10 (← digitsExactly 10 4)
  skip '-'
  let month ← twoDigits 1 12
  skip '-'
  discard (twoDigits 1 (lastDay year month))

def time : Reader Unit := do
  discard (twoDigits 0 23)
  skip ':'
  discard (twoDigits 0 59)
  skip ':'
  discard (twoDigits 0 60)
  discard (optional (do skip '.'; discard (char (isDigit 10)); run (isDigit 10)))

def zone : Reader Unit :=
  discard (char fun c => c == 'Z' || c == 'z') <|> do
    discard (char fun c => c == '+' || c == '-')
    discard (twoDigits 0 23)
    skip ':'
    discard (twoDigits 0 59)

def moment : Reader Value :=
  (do
    date
    discard (optional do
      discard (char fun c => c == 'T' || c == 't' || c == ' ')
      time
      optional zone)
    return .moment) <|> (do time; return .moment)

def ofInteger (i : Int) : Reader Value :=
  if -9223372036854775808 ≤ i && i ≤ 9223372036854775807 then return .integer i else failure

def sign : Reader Bool :=
  (do skip '-'; return true) <|> (do skip '+'; return false) <|> return false

/-- Decimal digits without a leading zero. -/
def wholeDigits : Reader (List Char) := do
  match ← digits 10 with
  | '0' :: _ :: _ => failure
  | ds => return ds

def fractionDigits : Reader (List Char) := skip '.' *> digits 10

def exponentValue : Reader Int := do
  discard (char fun c => c == 'e' || c == 'E')
  let negative ← sign
  let n := valueOf 10 (← digits 10)
  return if negative then -(n : Int) else n

def based : Reader Value := do
  skip '0'
  let base ← (do skip 'x'; return 16) <|> (do skip 'o'; return 8) <|> (do skip 'b'; return 2)
  ofInteger (valueOf base (← digits base))

def special : Reader Value := do
  let negative ← sign
  (do skipAll ['i', 'n', 'f']; return .decimal (.infinity negative))
    <|> (do skipAll ['n', 'a', 'n']; return .decimal (.nan negative))

def decimal : Reader Value := do
  let negative ← sign
  let whole ← wholeDigits
  let fraction ← optional fractionDigits
  let exponent ← optional exponentValue
  if fraction.isNone && exponent.isNone then
    let n := valueOf 10 whole
    ofInteger (if negative then -(n : Int) else n)
  else
    let fraction := fraction.getD []
    let x := Binary64.ofDecimal negative (valueOf 10 (whole ++ fraction))
      (exponent.getD 0 - fraction.length)
    if x = .infinity false then failure else return .decimal x

def flag : Reader Value :=
  (do skipAll "true".toList; return .flag true) <|> (do skipAll "false".toList; return .flag false)

def scalar : Reader Value :=
  (do return .text (← quotedText)) <|> moment <|> special <|> based <|> decimal <|> flag

end LossWatch.Toml
