import OfferAllocation.Number.Hex
import OfferAllocation.Toml.Reader
import OfferAllocation.Toml.Table

/-! Blanks, comments, strings and keys of configuration text. -/
namespace OfferAllocation
namespace Toml

open Reader

def isGap (c : Char) : Bool := c == ' ' || c == '\t'

/-- Control characters save the tab may stand neither in comments nor in strings. -/
def isPlain (c : Char) : Bool := c == '\t' || (0x20 ≤ c.toNat && c.toNat ≠ 0x7F)

def gap : Reader Unit := do
  let _ ← span isGap

def newline : Reader Unit := mark '\n' <|> word ['\r','\n']

def comment : Reader Unit := do
  mark '#'
  let _ ← span isPlain

/-- The end of a line or of the text, with a comment before it if there is one. -/
def lineEnd : Reader Unit := do
  gap
  optional comment
  newline <|> finished

/-- Blanks, line ends and comments between the items of an array. -/
def filling : Reader Unit := do
  gap
  let _ ← many (do
    optional comment
    newline
    gap)

def scalarOfHex (ds : List Char) : Option Char :=
  let n := ds.foldl (fun n c => 16*n + (Hex.value? c).getD 0) 0
  if n.isValidChar then some (Char.ofNat n) else none

/-- A character given by so many hexadecimal digits. -/
def hexEscape : Nat → List Char → Reader Char
  | 0,ds => fun cs => (scalarOfHex ds.reverse).map fun c => (c,cs)
  | n+1,ds => do
    let d ← one fun c => (Hex.value? c).isSome
    hexEscape n (d :: ds)

def letterEscape? : Char → Option Char
  | 'b' => some '\x08'
  | 't' => some '\t'
  | 'n' => some '\n'
  | 'f' => some '\x0c'
  | 'r' => some '\r'
  | '"' => some '"'
  | '\\' => some '\\'
  | _ => none

/-- A backslash with what it escapes. -/
def escape : Reader Char := do
  mark '\\'
  let c ← one fun _ => true
  if c = 'u' then hexEscape 4 []
  else if c = 'U' then hexEscape 8 []
  else StateT.lift (letterEscape? c)

def quoteMark : Char := '"'

def tickMark : Char := '\u0027'

/-- A string on one line. -/
def quoted : Reader String := do
  mark quoteMark
  let cs ← many ((one fun c => isPlain c && c != quoteMark && c != '\\') <|> escape)
  mark quoteMark
  return String.ofList cs

/-- A string on one line in which nothing is escaped. -/
def ticked : Reader String := do
  mark tickMark
  let cs ← span fun c => isPlain c && c != tickMark
  mark tickMark
  return String.ofList cs

def fence (q : Char) : Reader Unit := word [q,q,q]

/-- A mark that does not begin the end of the string. -/
def innerMark (q : Char) : Reader (List Char) := fun
  | c :: cs => if c = q ∧ ¬ [q,q,q].isPrefixOf (c :: cs) then some ([q],cs) else none
  | [] => none

/-- The end of a string over several lines; up to two marks before it still belong to the text. -/
def closingFence (q : Char) : Reader (List Char) := fun cs =>
  let run := (cs.takeWhile (· == q)).length
  if run < 3 then none
  else
    let extra := min (run - 3) 2
    some (List.replicate extra q,cs.drop (3 + extra))

def lineBreak : Reader (List Char) := do
  newline
  return ['\n']

/-- A backslash at the end of a line joins the next line that is not blank. -/
def joint : Reader (List Char) := do
  mark '\\'
  gap
  newline
  let _ ← many (newline <|> do
    let _ ← one isGap)
  return []

def single (p : Reader Char) : Reader (List Char) := do
  let c ← p
  return [c]

/-- A string over several lines, of the given pieces. A line end right after its start is no part
of it. -/
def fenced (q : Char) (piece : Reader (List Char)) : Reader String := do
  fence q
  optional newline
  let pieces ← many (piece <|> lineBreak <|> innerMark q)
  let rest ← closingFence q
  return String.ofList (pieces.flatten ++ rest)

def fencedQuoted : Reader String :=
  fenced quoteMark
    (single (one fun c => isPlain c && c != quoteMark && c != '\\') <|> joint <|> single escape)

def fencedTicked : Reader String :=
  fenced tickMark (single (one fun c => isPlain c && c != tickMark))

def anyString : Reader String := fencedQuoted <|> quoted <|> fencedTicked <|> ticked

def isBare (c : Char) : Bool := c.isAlphanum || c == '-' || c == '_'

def name : Reader String :=
  quoted <|> ticked <|> do
    let c ← one isBare
    let cs ← span isBare
    return String.ofList (c :: cs)

/-- The number of names in a key, and of containers around a value, stays below this. -/
def nestingLimit : Nat := 80

/-- Names with points between them, and blanks around each. -/
def key : Reader Key := do
  let part : Reader String := do
    gap
    let s ← name
    gap
    return s
  let first ← part
  let others ← many (do
    mark '.'
    part)
  if others.length + 1 < nestingLimit then
    return ⟨(first :: others).dropLast,others.getLast?.getD first⟩
  else failure

end Toml
end OfferAllocation
