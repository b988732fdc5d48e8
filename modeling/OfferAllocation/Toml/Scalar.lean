import OfferAllocation.Number.Hex
import OfferAllocation.Number.Numeral
import OfferAllocation.Toml.Value

/-! Scalars that are written without quotes: booleans, integers, floats and points in time. -/
namespace OfferAllocation
namespace Toml

/-- Digits of one numeral, with single underscores allowed between them; what is left follows. -/
def groupedTail (isDigit : Char → Bool) : List Char → List Char × List Char
  | '_' :: c :: cs =>
    if isDigit c then
      let (ds,rest) := groupedTail isDigit cs
      (c :: ds,rest)
    else ([],'_' :: c :: cs)
  | c :: cs =>
    if isDigit c then
      let (ds,rest) := groupedTail isDigit cs
      (c :: ds,rest)
    else ([],c :: cs)
  | [] => ([],[])

/-- At least one digit, and the groups behind it. -/
def grouped? (isDigit : Char → Bool) : List Char → Option (List Char × List Char)
  | c :: cs =>
    if isDigit c then
      let (ds,rest) := groupedTail isDigit cs
      some (c :: ds,rest)
    else none
  | [] => none

def unsign : List Char → Bool × List Char
  | '-' :: cs => (true,cs)
  | '+' :: cs => (false,cs)
  | cs => (false,cs)

def signed64 (n : Int) : Option Toml :=
  if Int64.minValue.toInt ≤ n ∧ n ≤ Int64.maxValue.toInt then some (.integer n) else none

/-- An integer after `0x`, `0o` or `0b`; the digits of each base are among those of base sixteen. -/
def based? (base : Nat) (cs : List Char) : Option Toml :=
  let inBase (c : Char) : Bool := (Hex.value? c).any fun d => d < base
  match grouped? inBase cs with
  | some (ds,[]) => signed64 (ds.foldl (fun n c => base*n + (Hex.value? c).getD 0) 0 : Nat)
  | _ => none

/-- The part of a decimal before its point; a leading zero stands alone. -/
def wholePart? : List Char → Option (List Char × List Char)
  | '0' :: cs => some (['0'],cs)
  | cs => grouped? Char.isDigit cs

def fractionPart? : List Char → Option (List Char × List Char)
  | '.' :: cs => grouped? Char.isDigit cs
  | cs => some ([],cs)

def exponentPart? : List Char → Option Int
  | [] => some 0
  | c :: cs =>
    let (negative,cs) := unsign cs
    if c = 'e' ∨ c = 'E' then
      match grouped? Char.isDigit cs with
      | some (ds,[]) =>
        let e : Int := Numeral.value ds
        some (if negative then -e else e)
      | _ => none
    else none

/-- A float that is too large is refused, and one that is too far below zero is infinite. -/
def decimal? (negative : Bool) (cs : List Char) : Option Toml := do
  let (whole,rest) ← wholePart? cs
  if rest.isEmpty then
    let n : Int := Numeral.value whole
    signed64 (if negative then -n else n)
  else
    let (fraction,rest) ← fractionPart? rest
    let e ← exponentPart? rest
    let x := (Numeral.decimal negative whole fraction e).toFloat
    if x == Decimal.infinity then none else some (.float x)

def number? (cs : List Char) : Option Toml :=
  match cs with
  | '0' :: 'x' :: ds => based? 16 ds
  | '0' :: 'o' :: ds => based? 8 ds
  | '0' :: 'b' :: ds => based? 2 ds
  | _ =>
    let (negative,ds) := unsign cs
    if ds = ['i','n','f'] then
      some (.float (if negative then -Decimal.infinity else Decimal.infinity))
    else if ds = ['n','a','n'] then some (.float Decimal.notANumber)
    else decimal? negative ds

/-- The value of a two-digit numeral that does not pass a bound. -/
def pair? (a b : Char) (low high : Nat) : Option Nat := do
  let n ← Numeral.natural? [a,b]
  if low ≤ n ∧ n ≤ high then some n else none

def daysIn (year month : Nat) : Nat :=
  if month = 2 then
    if year % 4 = 0 ∧ (year % 100 ≠ 0 ∨ year % 400 = 0) then 29 else 28
  else if month = 4 ∨ month = 6 ∨ month = 9 ∨ month = 11 then 30
  else 31

/-- What follows a date that is on the calendar. -/
def afterDate? : List Char → Option (List Char)
  | y₁ :: y₂ :: y₃ :: y₄ :: '-' :: m₁ :: m₂ :: '-' :: d₁ :: d₂ :: rest => do
    let year ← Numeral.natural? [y₁,y₂,y₃,y₄]
    let month ← pair? m₁ m₂ 1 12
    let _ ← pair? d₁ d₂ 1 (daysIn year month)
    return rest
  | _ => none

/-- What follows a time of day; its seconds may count a leap second and have a fraction. -/
def afterTime? : List Char → Option (List Char)
  | h₁ :: h₂ :: ':' :: m₁ :: m₂ :: ':' :: s₁ :: s₂ :: rest => do
    let _ ← pair? h₁ h₂ 0 23
    let _ ← pair? m₁ m₂ 0 59
    let _ ← pair? s₁ s₂ 0 60
    match rest with
    | '.' :: cs => match Numeral.splitDigits cs with
      | ([],_) => none
      | (_,rest) => return rest
    | _ => return rest
  | _ => none

/-- An offset from universal time, if there is one. -/
def isOffset : List Char → Bool
  | [] => true
  | [c] => c == 'Z' || c == 'z'
  | [c,h₁,h₂,':',m₁,m₂] =>
    (c == '+' || c == '-') && (pair? h₁ h₂ 0 23).isSome && (pair? m₁ m₂ 0 59).isSome
  | _ => false

def isDate (cs : List Char) : Bool := afterDate? cs == some []

/-- A date, a time of day, or both with or without an offset. -/
def isDateTime (cs : List Char) : Bool :=
  match afterDate? cs with
  | some [] => true
  | some (c :: rest) => (c == 'T' || c == 't' || c == ' ') && (afterTime? rest).any isOffset
  | none => afterTime? cs == some []

def scalar? (cs : List Char) : Option Toml :=
  if cs = ['t','r','u','e'] then some (.boolean true)
  else if cs = ['f','a','l','s','e'] then some (.boolean false)
  else if isDateTime cs then some (.dateTime (String.ofList cs))
  else number? cs

end Toml
end OfferAllocation
