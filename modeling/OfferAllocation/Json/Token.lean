import OfferAllocation.Json.Value
import OfferAllocation.Number.Hex
import OfferAllocation.Number.Numeral

/-! The lexical half of reading: a fold over the characters of a text that collects its tokens.
Words, numerals among them, end at the first character that cannot belong to one. A numeral stands for
the double nearest to its exact value. Readers that scale the first digits of a numeral by a power of
ten, and round twice, differ from this: they may give a neighbour of the nearest double, and may find
no double for a numeral next to the largest. -/
namespace OfferAllocation
namespace Json

inductive Token
  | openObject | closeObject | openArray | closeArray | comma | colon
  | string (text : Label)
  | value (leaf : Json)

/-- What a backslash and a letter stand for. -/
def unescape? : Char → Option Char
  | '"' => some '"'
  | '\\' => some '\\'
  | '/' => some '/'
  | 'b' => some '\x08'
  | 'f' => some '\x0c'
  | 'n' => some '\n'
  | 'r' => some '\r'
  | 't' => some '\t'
  | _ => none

def isLeading (n : Nat) : Bool := 0xD800 ≤ n && n ≤ 0xDBFF

def isTrailing (n : Nat) : Bool := 0xDC00 ≤ n && n ≤ 0xDFFF

/-- The characters that code units spell: a leading surrogate takes the trailing one behind it,
and neither may stand alone. -/
def spell : List Nat → Option (List Char)
  | [] => some []
  | [n] => if isLeading n || isTrailing n then none else some [Char.ofNat n]
  | n :: m :: ns =>
    if isLeading n then
      if isTrailing m then
        (spell ns).map (Char.ofNat (0x10000 + (n - 0xD800)*0x400 + (m - 0xDC00)) :: ·)
      else none
    else if isTrailing n then none
    else (spell (m :: ns)).map (Char.ofNat n :: ·)

def label (units : List Nat) : Label := (spell units).map String.ofList

/-- The digits after a point, if there is one; then at least one digit must follow. -/
def fraction? : List Char → Option (List Char × List Char)
  | '.' :: cs => match Numeral.splitDigits cs with
    | ([],_) => none
    | split => some split
  | cs => some ([],cs)

/-- A number literal without its sign. A leading zero stands alone before the point. -/
def unsigned? (negative : Bool) (cs : List Char) : Option Json :=
  match Numeral.splitDigits cs with
  | ([],_) => none
  | ('0' :: _ :: _,_) => none
  | (whole,[]) =>
    some (if negative then ofReal (Numeral.decimal true whole [] 0).toFloat
      else ofNatural (Numeral.value whole))
  | (whole,rest) => do
    let (fraction,rest) ← fraction? rest
    let e ← Numeral.exponent? rest
    return ofReal (Numeral.decimal negative whole fraction e).toFloat

/-- The value of a word. -/
def word? (cs : List Char) : Option Json :=
  if cs = ['n','u','l','l'] then some .null
  else if cs = ['t','r','u','e'] then some (.bool true)
  else if cs = ['f','a','l','s','e'] then some (.bool false)
  else match cs with
    | '-' :: r => unsigned? true r
    | _ => unsigned? false cs

def isWordChar (c : Char) : Bool := c.isAlphanum || c == '+' || c == '-' || c == '.'

def isSpace (c : Char) : Bool := c == ' ' || c == '\t' || c == '\n' || c == '\r'

def mark? : Char → Option Token
  | '{' => some .openObject
  | '}' => some .closeObject
  | '[' => some .openArray
  | ']' => some .closeArray
  | ',' => some .comma
  | ':' => some .colon
  | _ => none

/-- Where in a token the reading stands; what was read of it comes latest first. -/
inductive Mode
  | between
  | word (seen : List Char)
  | quoted (units : List Nat)
  | escaped (units : List Nat)
  | unit (units : List Nat) (value : Nat) (due : Nat)

structure Scan where
  mode : Mode
  tokens : List Token

namespace Scan

def start : Scan := ⟨.between,[]⟩

/-- The first character after a token. -/
def enter (ts : List Token) (c : Char) : Option Scan :=
  if isSpace c then some ⟨.between,ts⟩
  else if c = '"' then some ⟨.quoted [],ts⟩
  else if isWordChar c then some ⟨.word [c],ts⟩
  else (mark? c).map fun t => ⟨.between,t :: ts⟩

/-- One character further. -/
def step (s : Scan) (c : Char) : Option Scan :=
  match s.mode with
  | .between => enter s.tokens c
  | .word seen =>
    if isWordChar c then some ⟨.word (c :: seen),s.tokens⟩
    else (word? seen.reverse).bind fun j => enter (.value j :: s.tokens) c
  | .quoted us =>
    if c = '"' then some ⟨.between,.string (label us.reverse) :: s.tokens⟩
    else if c = '\\' then some ⟨.escaped us,s.tokens⟩
    else if c.toNat < 0x20 then none
    else some ⟨.quoted (c.toNat :: us),s.tokens⟩
  | .escaped us =>
    if c = 'u' then some ⟨.unit us 0 3,s.tokens⟩
    else (unescape? c).map fun d => ⟨.quoted (d.toNat :: us),s.tokens⟩
  | .unit us v due => (Hex.value? c).map fun d =>
    match due with
    | 0 => ⟨.quoted ((16*v + d) :: us),s.tokens⟩
    | due+1 => ⟨.unit us (16*v + d) due,s.tokens⟩

/-- The tokens of a text that has come to its end. -/
def finish (s : Scan) : Option (List Token) :=
  match s.mode with
  | .between => some s.tokens.reverse
  | .word seen => (word? seen.reverse).map fun j => (.value j :: s.tokens).reverse
  | _ => none

end Scan

/-- The tokens of a text. -/
def tokens? (cs : List Char) : Option (List Token) := do
  let s ← cs.foldlM Scan.step Scan.start
  s.finish

end Json
end OfferAllocation
