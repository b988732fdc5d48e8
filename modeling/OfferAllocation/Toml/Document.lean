import OfferAllocation.Toml.Scalar
import OfferAllocation.Toml.Text

/-! Configuration text: values, the statements of a text line by line, and the table they make. -/
namespace OfferAllocation
namespace Toml

open Reader

def isAtomChar (c : Char) : Bool :=
  c.isAlphanum || c == '+' || c == '-' || c == '.' || c == ':' || c == '_'

/-- A scalar without quotes. A date may be parted by a space from the time that goes with it. -/
def atom : Reader Toml := do
  let cs ← span isAtomChar
  let joined : Reader (List Char) := do
    mark ' '
    let d ← one Char.isDigit
    let rest ← span isAtomChar
    return cs ++ ' ' :: d :: rest
  let cs ← if isDate cs then joined <|> pure cs else pure cs
  StateT.lift (scalar? cs)

def leaf : Reader Toml := (Toml.string <$> anyString) <|> atom

def listOf (item : Reader Toml) : Reader Toml := do
  mark '['
  filling
  let spaced : Reader Toml := do
    let v ← item
    filling
    return v
  let comma : Reader Unit := do
    mark ','
    filling
  let vs ← separated spaced comma
  if !vs.isEmpty then optional comma
  mark ']'
  return .array vs

/-- A key, its value and the blanks between and around them. -/
def pair (item : Reader Toml) : Reader (Key × Toml) := do
  let k ← key
  mark '='
  gap
  let v ← item
  gap
  return (k,v)

def tableOf (item : Reader Toml) : Reader Toml := do
  mark '{'
  let ps ← separated (pair item) (mark ',')
  gap
  mark '}'
  StateT.lift (ofPairs ps)

/-- A value inside which containers may be nested so many deep. -/
def value : Nat → Reader Toml
  | 0 => leaf
  | depth+1 => do
    match ← peek with
    | some '[' => listOf (value depth)
    | some '{' => tableOf (value depth)
    | _ => leaf

def header (left right : List Char) : Reader Key := do
  word left
  let k ← key
  word right
  return k

def statement : Reader Statement :=
  (Statement.element <$> header ['[','['] [']',']']) <|>
  (Statement.table <$> header ['['] [']']) <|>
  (do
    let (k,v) ← pair (value (nestingLimit - 1))
    return .pair k v)

/-- A line, which may hold no statement at all. -/
def line : Reader (List Statement) := do
  gap
  let ss ← (List.singleton <$> statement) <|> pure []
  lineEnd
  return ss

/-- A text may begin with a byte order mark. -/
def statements : Reader (List Statement) := do
  optional (mark '\uFEFF')
  let ss ← many line
  finished
  return ss.flatten

/-- The table that a text describes, if it is in order. -/
def parse (text : String) : Option (List (String × Toml)) := do
  let (ss,_) ← statements.run text.toList
  ofStatements ss

end Toml
end OfferAllocation
