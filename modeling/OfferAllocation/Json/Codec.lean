import OfferAllocation.Json.Parse
import OfferAllocation.Json.Print
import OfferAllocation.Misfit

/-! Values in documents. A codec says how a value is taken from a tree and how it is given as one;
codecs for the parts of a value make up the codec for the whole. -/
namespace OfferAllocation

structure Codec (α : Type) where
  read : Json → Except Misfit α
  write : α → Json

/-- Why a text could not be read: it is no document, or the document does not fit. -/
inductive ReadError
  | malformed
  | misfit (m : Misfit)
  deriving DecidableEq

namespace Codec

def string : Codec String where
  read
    | .string s => .ok s
    | _ => .error .shape
  write := .string

/-- A double, read from any number. -/
def double : Codec Float where
  read
    | .natural n => .ok (nearestDouble n)
    | .real x => .ok x
    | _ => .error .shape
  write := .real

/-- A machine word, read from an integer without a sign only. -/
def word : Codec UInt64 where
  read
    | .natural n => if n < Numeral.limit then .ok (UInt64.ofNat n) else .error .shape
    | _ => .error .shape
  write n := .natural n.toNat

/-- All items in order; the first that does not fit decides. -/
def readItems {α : Type} (read : Json → Except Misfit α) : List Json → Except Misfit (List α)
  | [] => .ok []
  | j :: js => do
    let a ← read j
    let as ← readItems read js
    return a :: as

def list {α : Type} (c : Codec α) : Codec (List α) where
  read
    | .array js => readItems c.read js
    | _ => .error .shape
  write as := .array (as.map c.write)

/-- `null` stands for an absent value. -/
def option {α : Type} (c : Codec α) : Codec (Option α) where
  read
    | .null => .ok none
    | j => some <$> c.read j
  write
    | none => .null
    | some a => c.write a

/-- The name of a variant may also be the only name of an object whose value is `null`. -/
def readVariant {α : Type} (table : List (String × α)) : Json → Except Misfit α
  | .string s => variantNamed table s
  | .object ((some k,j) :: ms) => do
    let a ← variantNamed table k
    match j,ms with
    | .null,[] => .ok a
    | _,_ => .error .shape
  | _ => .error .shape

/-- A choice among variants without contents. -/
def variant {α : Type} (table : List (String × α)) (name : α → String) : Codec α where
  read := readVariant table
  write a := .string (name a)

/-- Reads a text. Of a document that does not fit, the first fault in reading order is reported, and
a void literal is one only where its value is asked for. -/
def readText {α : Type} (c : Codec α) (text : String) : Except ReadError α :=
  match Json.parse text with
  | none => .error .malformed
  | some j => (c.read j).mapError .misfit

def writeText {α : Type} (c : Codec α) (a : α) : String := (c.write a).render

end Codec
end OfferAllocation
