import OfferAllocation.Number.Decimal

/-! Numerals in ASCII digits: their values, and the two forms in which the terms of a filter may
give a number. -/
namespace OfferAllocation
namespace Numeral

def value (ds : List Char) : Nat := ds.foldl (fun n d => 10*n + (d.toNat - 48)) 0

/-- The shortest numeral of a number. -/
def ofNat (n : Nat) : List Char := Nat.toDigits 10 n

def splitDigits (cs : List Char) : List Char × List Char :=
  (cs.takeWhile Char.isDigit,cs.dropWhile Char.isDigit)

/-- All of a text as one or more digits. -/
def natural? (cs : List Char) : Option Nat :=
  if cs ≠ [] ∧ cs.all Char.isDigit then some (value cs) else none

/-- All of a text as digits with an optional sign. -/
def integer? : List Char → Option Int
  | '-' :: cs => (natural? cs).map fun n => -(n : Int)
  | '+' :: cs => (natural? cs).map fun n => (n : Int)
  | cs => (natural? cs).map fun n => (n : Int)

/-- What follows the digits of a numeral: nothing, or the mark of an exponent and an integer. -/
def exponent? : List Char → Option Int
  | [] => some 0
  | c :: cs => if c = 'e' ∨ c = 'E' then integer? cs else none

/-- Digits before and after the point, scaled by a power of ten. -/
def decimal (negative : Bool) (whole fraction : List Char) (exponent : Int) : Decimal :=
  ⟨negative,value (whole ++ fraction),exponent - fraction.length⟩

def limit : Nat := UInt64.size

/-- A machine word in decimal: an optional plus sign, then digits, of a value below `2 ^ 64`. -/
def word? (cs : List Char) : Option UInt64 :=
  let ds := match cs with
    | '+' :: r => r
    | _ => cs
  (natural? ds).bind fun n => if n < limit then some (UInt64.ofNat n) else none

/-- A magnitude in decimal: digits around an optional point, at least one in all, and an optional
exponent; or one of the words for infinity and for no number, in any case. -/
def magnitude? (negative : Bool) (cs : List Char) : Option Float :=
  let signed (x : Float) : Float := if negative then -x else x
  let word := cs.map Char.toLower
  if word = ['i','n','f'] ∨ word = ['i','n','f','i','n','i','t','y'] then some (signed Decimal.infinity)
  else if word = ['n','a','n'] then some (signed Decimal.notANumber)
  else
    let (whole,rest) := splitDigits cs
    let (fraction,rest) := match rest with
      | '.' :: r => splitDigits r
      | _ => ([],rest)
    if whole = [] ∧ fraction = [] then none
    else (exponent? rest).map fun e => (decimal negative whole fraction e).toFloat

def double? : List Char → Option Float
  | '-' :: cs => magnitude? true cs
  | '+' :: cs => magnitude? false cs
  | cs => magnitude? false cs

end Numeral
end OfferAllocation
