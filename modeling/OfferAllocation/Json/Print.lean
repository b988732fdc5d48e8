import OfferAllocation.Json.Value
import OfferAllocation.Number.Hex
import OfferAllocation.Number.Numeral

/-! Written documents: one line without spaces. A number with a fraction is given by the digits of
its bits, in quotes, so that nothing is lost by rounding. -/
namespace OfferAllocation
namespace Json

/-- The form of a character inside quotes. Only the quote, the backslash and the control
characters below the space may not stand for themselves. -/
def escape (c : Char) : List Char :=
  match c with
  | '"' => ['\\','"']
  | '\\' => ['\\','\\']
  | '\x08' => ['\\','b']
  | '\x0c' => ['\\','f']
  | '\n' => ['\\','n']
  | '\r' => ['\\','r']
  | '\t' => ['\\','t']
  | _ => if c.toNat < 0x20 then '\\' :: 'u' :: Hex.digits 4 c.toNat else [c]

def quote (s : String) : List Char := '"' :: (s.toList.flatMap escape ++ ['"'])

/-- The sixteen digits of the bits of a double. -/
def bits (x : Float) : List Char := Hex.digits 16 x.toBits.toNat

/-- A finite number by its bits; any other has no written form but `null`. -/
def printReal (x : Float) : List Char :=
  if finite x then '"' :: (bits x ++ ['"']) else ['n','u','l','l']

def printLabel (k : Label) : List Char := quote (k.getD "")

mutual

/-- The text of a tree. A void literal is written as `null`. -/
def print : Json → List Char
  | .null => ['n','u','l','l']
  | .bool true => ['t','r','u','e']
  | .bool false => ['f','a','l','s','e']
  | .natural n => Numeral.ofNat n
  | .real x => printReal x
  | .string s => quote s
  | .void => ['n','u','l','l']
  | .array [] => ['[',']']
  | .array (j :: js) => '[' :: (print j ++ printItems js)
  | .object [] => ['{','}']
  | .object ((k,j) :: ms) => '{' :: (printLabel k ++ ':' :: (print j ++ printMembers ms))

/-- The items after the first, and the end of the array. -/
def printItems : List Json → List Char
  | [] => [']']
  | j :: js => ',' :: (print j ++ printItems js)

/-- The members after the first, and the end of the object. -/
def printMembers : List (Label × Json) → List Char
  | [] => ['}']
  | (k,j) :: ms => ',' :: (printLabel k ++ ':' :: (print j ++ printMembers ms))

end

def render (j : Json) : String := String.ofList j.print

end Json
end OfferAllocation
