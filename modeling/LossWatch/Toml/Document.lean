import LossWatch.Toml.Scalar

/-!
TOML documents: a list of headings and keys with values, put into one table. Lists and inline tables
may nest 79 deep, and a dotted key may have as many parts.
-/

namespace LossWatch.Toml

/-- Nesting and dotted keys stay below this. -/
def nestingLimit : Nat := 80

def isBareKey (c : Char) : Bool :=
  'a' ≤ c && c ≤ 'z' || 'A' ≤ c && c ≤ 'Z' || '0' ≤ c && c ≤ '9' || c == '-' || c == '_'

def keyPart : Reader String :=
  basicText <|> literalText <|> do
    let first ← char isBareKey
    return String.ofList (first :: (← run isBareKey))

def key : Reader (List String × String) := do
  let parts ← separated (spaces *> keyPart <* spaces) (skip '.')
  if nestingLimit ≤ parts.length then failure else
  return (parts.dropLast, ← parts.getLast?)

def list (value : Reader Value) : Reader Value := do
  skip '['
  let items ← (separated (gap *> value <* gap) (skip ',') <* optional (skip ',')) <|> pure []
  gap
  skip ']'
  return .list items

def inlineTable (value : Reader Value) : Reader Value := do
  skip '\x7b'
  let pair := do
    let (path, key) ← key
    skip '='
    return (path, key, ← spaces *> value <* spaces)
  let pairs ← separated pair (skip ',') <|> pure []
  spaces
  skip '\x7d'
  let t ← pairs.foldlM (fun (t : Table) (path, key, v) => t.addAt path key v) .empty
  return .table .closed t.entries

/-- A value with at most so many lists and inline tables around one another. -/
def value : Nat → Reader Value
  | 0 => scalar
  | depth + 1 => scalar <|> list (value depth) <|> inlineTable (value depth)

inductive Statement
  | pair (path : List String) (key : String) (v : Value)
  | heading (path : List String) (key : String)
  | row (path : List String) (key : String)

def statement : Reader Statement :=
  (do
    skipAll ['[', '[']
    let (path, key) ← key
    skipAll [']', ']']
    lineEnd
    return .row path key)
  <|> (do
    skip '['
    let (path, key) ← key
    skip ']'
    lineEnd
    return .heading path key)
  <|> (do
    let (path, key) ← key
    skip '='
    spaces
    let v ← value (nestingLimit - 1)
    lineEnd
    return .pair path key v)

def statements : Reader (List Statement) := do
  discard (optional (skip '\uFEFF'))
  let found ← many (spaces *> ((do newline; return none) <|> (do
    comment
    newline <|> atEnd
    return none) <|> (some <$> statement)))
  spaces
  atEnd
  return found.filterMap id

/-- The table so far and the path of the heading under which keys are added. -/
structure Draft where
  root : Table := .empty
  heading : List String := []

def Draft.add (d : Draft) : Statement → Option Draft
  | .pair path key v => do
    return { d with root := ← d.root.within false (Table.addAt path key v) d.heading }
  | .heading path key => do
    return { root := ← d.root.within false (Table.openTable key) path, heading := path ++ [key] }
  | .row path key => do
    return { root := ← d.root.within false (Table.openRow key) path, heading := path ++ [key] }

def read? (text : String) : Option Table := do
  let (found, _) ← statements text.toList
  let d ← found.foldlM Draft.add {}
  return d.root

end LossWatch.Toml
