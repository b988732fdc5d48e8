import OfferAllocation.Number.Decimal

/-! Document trees. A tree keeps the members of an object in order and with repetitions, and it
keeps the places where a literal is in order as a phrase but stands for nothing. -/
namespace OfferAllocation

/-- The text of a string literal, if its escapes spell one: a surrogate without its partner
spells no character. -/
abbrev Label := Option String

/-- A document. `natural` is an integer written without sign, point or exponent, and `real` any
other finite number. `void` is a literal without a value: a string that spells no text, a number
beyond the finite doubles, or a container nested too deep to be taken up. -/
inductive Json
  | null
  | bool (value : Bool)
  | natural (value : Nat)
  | real (value : Float)
  | string (text : String)
  | void
  | array (items : List Json)
  | object (members : List (Label × Json))

namespace Json

mutual

/-- No literal in the tree is void. -/
def sound : Json → Bool
  | .void => false
  | .array js => soundItems js
  | .object ms => soundMembers ms
  | _ => true

def soundItems : List Json → Bool
  | [] => true
  | j :: js => sound j && soundItems js

def soundMembers : List (Label × Json) → Bool
  | [] => true
  | (k,j) :: ms => k.isSome && sound j && soundMembers ms

end

/-- The value of a string literal. -/
def ofLabel : Label → Json
  | some s => .string s
  | none => .void

/-- Tells whether a double is a number, and not infinite. -/
def finite (x : Float) : Bool := x.isFinite

/-- Tells whether an integer has a double near it. From `(2 ^ 54 - 1) · 2 ^ 970` on, `2 ^ 1024` is
nearer than the largest double. -/
def inReach (n : Nat) : Bool := n >>> 970 < Nat.pow 2 54 - 1

/-- The value of an integer literal without a sign. -/
def ofNatural (n : Nat) : Json := if inReach n then .natural n else .void

/-- The value of any other number literal. -/
def ofReal (x : Float) : Json := if finite x then .real x else .void

end Json
end OfferAllocation
