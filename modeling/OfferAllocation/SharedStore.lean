import OfferAllocation.Store

/-! A store behind a lock. Each access takes the lock once and is a step of its own; an access that
fails while it holds the lock leaves the store poisoned, and every later one is refused. -/
namespace OfferAllocation

structure SharedStore (κ ν : Type) where
  store : Store κ ν
  poisoned : Bool := false

/-- What may be asked of a shared store. The function of an update gets the value that is bound, if
there is one, and gives the value to bind; `updateFailing` is an update whose function fails. -/
inductive Access (κ ν : Type)
  | get (key : κ)
  | set (key : κ) (value : ν)
  | delete (key : κ)
  | contains (key : κ)
  | size
  | isEmpty
  | update (key : κ) (next : Option ν → ν)
  | updateFailing (key : κ)

inductive Reply (ν : Type)
  | value (found : Option ν)
  | stored
  | flag (answer : Bool)
  | count (n : Nat)
  | given (current : Option ν)
  | failed
  | refused
  deriving DecidableEq

/-- What a caller is told when the lock is poisoned. -/
def poisonMessage : String := "map lock: PoisonError \x7b .. \x7d"

namespace SharedStore

variable {κ ν : Type} [DecidableEq κ]

def empty : SharedStore κ ν := ⟨.empty,false⟩

/-- One access to a store that is not poisoned. An update takes the binding out before its function
is called, so a failing one leaves the key unbound. -/
def sound (s : Store κ ν) : Access κ ν → Reply ν × SharedStore κ ν
  | .get k => (.value (s.get? k),⟨s,false⟩)
  | .set k v => (.stored,⟨s.insert k v,false⟩)
  | .delete k => (.flag (s.contains k),⟨s.erase k,false⟩)
  | .contains k => (.flag (s.contains k),⟨s,false⟩)
  | .size => (.count s.size,⟨s,false⟩)
  | .isEmpty => (.flag s.isEmpty,⟨s,false⟩)
  | .update k f => (.given (s.get? k),⟨(s.erase k).insert k (f (s.get? k)),false⟩)
  | .updateFailing k => (.failed,⟨s.erase k,true⟩)

def step (s : SharedStore κ ν) (a : Access κ ν) : Reply ν × SharedStore κ ν :=
  if s.poisoned then (.refused,s) else sound s.store a

/-- The replies to a sequence of accesses, and the store that they leave. -/
def run (s : SharedStore κ ν) : List (Access κ ν) → List (Reply ν) × SharedStore κ ν
  | [] => ([],s)
  | a :: as =>
    let (r,s) := s.step a
    let (rs,s) := s.run as
    (r :: rs,s)

end SharedStore
end OfferAllocation
