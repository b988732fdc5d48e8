/-! Exact decimal values and the doubles nearest to them. A value is rounded once, from all of its
digits, whatever their number. -/
namespace OfferAllocation

/-- The value `± digits · 10 ^ exponent`; zero has both signs. -/
structure Decimal where
  negative : Bool
  digits : Nat
  exponent : Int
  deriving DecidableEq

namespace Decimal

def infinity : Float := Float.ofBits 0x7FF0000000000000

def notANumber : Float := Float.ofBits 0x7FF8000000000000

/-- The double nearest to `m · 10 ^ e`. With `b` the binary logarithm of `m`, the value lies between
`10 ^ (3b/10 + e)` and `10 ^ (b/3 + 1 + e)`, so the powers out of reach are settled without being
computed. -/
def nearest (m : Nat) (e : Int) : Float :=
  if m = 0 then 0
  else if 309 < (m.log2 * 3 / 10 : Nat) + e then infinity
  else if (m.log2 / 3 + 1 : Nat) + e < -330 then 0
  else Float.ofScientific m (decide (e < 0)) e.natAbs

def toFloat (d : Decimal) : Float :=
  if d.negative then -nearest d.digits d.exponent else nearest d.digits d.exponent

end Decimal

/-- A natural number as the double nearest to it. -/
def nearestDouble (n : Nat) : Float := Decimal.nearest n 0

end OfferAllocation
