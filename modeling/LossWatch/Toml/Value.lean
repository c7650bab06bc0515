import LossWatch.Decimal.Binary64

/-!
TOML values and the rules by which tables grow. A table remembers how it came to be, because that
decides what may still be added: a heading opens a table once, a dotted key extends only tables
that dotted keys made, and an inline table is closed when its brace is.
-/

namespace LossWatch.Toml

inductive Standing
  | written
  | implied
  | dotted
  | closed
deriving DecidableEq, Repr

/-- Dates and times are read and then carry no value of their own. -/
inductive Value
  | text (s : String)
  | integer (i : Int)
  | decimal (x : Binary64)
  | flag (b : Bool)
  | moment
  | list (items : List Value)
  | table (standing : Standing) (entries : List (String × Value))
  | rows (tables : List (List (String × Value)))

structure Table where
  standing : Standing
  entries : List (String × Value)

namespace Table

def empty : Table := ⟨.written, []⟩

def toValue (t : Table) : Value := .table t.standing t.entries

def find? (t : Table) (key : String) : Option Value := t.entries.lookup key

/-- Sets the value of a key, in the place of the key's old value if there is one. -/
def put (t : Table) (key : String) (v : Value) : Table :=
  if (t.find? key).isSome then
    { t with entries := t.entries.map fun e => if e.1 == key then (key, v) else e }
  else { t with entries := t.entries ++ [(key, v)] }

/-- Changes the table at the end of a path. Missing tables are made on the way, and of an array of
tables the last is meant. A dotted path may not pass a table that a heading wrote, and no path
enters a closed table. -/
def within (viaDots : Bool) (f : Table → Option Table) : List String → Table → Option Table
  | [], t => f t
  | key :: path, t =>
    match t.find? key with
    | none => do
      let child ← within viaDots f path ⟨if viaDots then .dotted else .implied, []⟩
      return t.put key child.toValue
    | some (.rows tables) => do
      let child ← within viaDots f path ⟨.written, ← tables.getLast?⟩
      return t.put key (.rows (tables.dropLast ++ [child.entries]))
    | some (.table standing entries) =>
      if standing = .closed || viaDots && standing = .written then none else do
      let child ← within viaDots f path ⟨standing, entries⟩
      return t.put key child.toValue
    | some _ => none

/-- Adds a new key at the end of a dotted path. The table there is made by dots if the path has any,
and not made by dots if it has none. -/
def addAt (path : List String) (key : String) (v : Value) : Table → Option Table :=
  within true (fun t =>
    if (t.standing = .dotted) = (path = []) || (t.find? key).isSome then none
    else some (t.put key v)) path

/-- Opens the table of a heading: a new one, or one so far only implied by longer headings. -/
def openTable (key : String) (parent : Table) : Option Table :=
  match parent.find? key with
  | none => some (parent.put key (.table .written []))
  | some (.table .implied entries) => some (parent.put key (.table .written entries))
  | some _ => none

def openRow (key : String) (parent : Table) : Option Table :=
  match parent.find? key with
  | none => some (parent.put key (.rows [[]]))
  | some (.rows tables) => some (parent.put key (.rows (tables ++ [[]])))
  | some _ => none

end Table
end LossWatch.Toml
