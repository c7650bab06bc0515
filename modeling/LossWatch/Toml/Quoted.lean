import LossWatch.Toml.Reader

/-!
The four quoted forms of text. Between double quotes a backslash escapes, between single quotes
nothing does; in the tripled forms the text may run over lines, and one or two quotes stand for
themselves wherever a third does not follow.
-/

namespace LossWatch.Toml

/-- The character with a code of so many hexadecimal digits. Surrogates are no characters. -/
def codePoint (width : Nat) : Reader Char := do
  let n := valueOf 16 (← digitsExactly 16 width)
  if n.isValidChar then return Char.ofNat n else failure

def escape : Reader Char := do
  match ← char fun _ => true with
  | 'b' => return '\x08'
  | 't' => return '\t'
  | 'n' => return '\n'
  | 'f' => return '\x0c'
  | 'r' => return '\r'
  | '"' => return '"'
  | '\\' => return '\\'
  | 'u' => codePoint 4
  | 'U' => codePoint 8
  | _ => failure

def basicChar : Reader Char :=
  (skip '\\' *> escape) <|> char fun c => isPlain c && c != '"' && c != '\\'

def literalChar : Reader Char := char fun c => isPlain c && c != '\''

def basicText : Reader String := do
  skip '"'
  let cs ← many basicChar
  skip '"'
  return String.ofList cs

def literalText : Reader String := do
  skip '\''
  let cs ← many literalChar
  skip '\''
  return String.ofList cs

/-- One or two quotes that belong to the text. -/
def looseQuotes (quote : Char) : Reader (List Char) := fun cs =>
  let (quotes, rest) := cs.span (· == quote)
  if quotes != [] && quotes.length ≤ 2 then some (quotes, rest) else none

/-- The closing three quotes, and at most two before them that belong to the text. -/
def closingQuotes (quote : Char) : Reader (List Char) := fun cs =>
  let count := (cs.takeWhile (· == quote)).length
  if count < 3 then none else
  let kept := min 2 (count - 3)
  some (cs.take kept, cs.drop (kept + 3))

/-- A backslash at the end of a line: it and all blanks and line ends after it are left out. -/
def foldedLine : Reader (List Char) := do
  skip '\\'
  spaces
  newline
  discard (many (discard (char isSpace) <|> newline))
  return []

/-- A tripled form: a line end right after the opening quotes is left out. -/
def block (quote : Char) (piece : Reader (List Char)) : Reader String := do
  skipAll [quote, quote, quote]
  discard (optional newline)
  let pieces ← many (piece <|> (do newline; return ['\n']) <|> looseQuotes quote)
  let last ← closingQuotes quote
  return String.ofList (pieces.flatten ++ last)

def single (p : Reader Char) : Reader (List Char) := do return [← p]

def quotedText : Reader String :=
  block '"' (foldedLine <|> single basicChar) <|> basicText
    <|> block '\'' (single literalChar) <|> literalText

end LossWatch.Toml
