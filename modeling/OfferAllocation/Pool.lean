import OfferAllocation.Offer
import OfferAllocation.Task

/-! The pool of offers that may still be assigned. Entries are numbered as they are taken in, and
keep that number wherever removals move them. -/
namespace OfferAllocation

/-- An offer in the pool with what is left of it. `position` is its number among all offers that
the pool has taken in. -/
structure Entry where
  position : Nat
  offer : Offer
  cpu : Float
  mem : Float
  disk : Option Disk
  accepted : Bool

namespace Entry

/-- The amount of the last line of a name, zero if there is none. -/
def lastAmount (name : String) (rs : List Resource) : Float :=
  ((linesNamed name rs).getLast?.map Resource.value).getD 0

/-- The disk of the last disk line, even if that line has none. -/
def lastDisk (rs : List Resource) : Option Disk :=
  (linesNamed "disk" rs).getLast?.bind Resource.disk

/-- An offer as it is taken in. -/
def ofOffer (position : Nat) (o : Offer) : Entry where
  position := position
  offer := o
  cpu := lastAmount "cpus" o.resources
  mem := lastAmount "mem" o.resources
  disk := lastDisk o.resources
  accepted := false

@[simp] theorem ofOffer_position (n : Nat) (o : Offer) : (ofOffer n o).position = n := rfl

@[simp] theorem ofOffer_offer (n : Nat) (o : Offer) : (ofOffer n o).offer = o := rfl

@[simp] theorem ofOffer_accepted (n : Nat) (o : Offer) : (ofOffer n o).accepted = false := rfl

/-- No amount is left on one of the two axes. -/
def exhausted (e : Entry) : Bool := e.cpu == 0 || e.mem == 0

end Entry

namespace Demand

/-- What is left of the entry would not be negative on either axis. -/
def fits (d : Demand) (e : Entry) : Bool := e.cpu - d.cpu ≥ 0 && e.mem - d.mem ≥ 0

/-- The entry after the demand has been met. A disk is not divided but replaced. -/
def take (d : Demand) (e : Entry) : Entry :=
  { e with
    cpu := e.cpu - d.cpu
    mem := e.mem - d.mem
    disk := d.disk.or e.disk
    accepted := true }

@[simp] theorem take_position (d : Demand) (e : Entry) : (d.take e).position = e.position := rfl

@[simp] theorem take_offer (d : Demand) (e : Entry) : (d.take e).offer = e.offer := rfl

@[simp] theorem take_accepted (d : Demand) (e : Entry) : (d.take e).accepted = true := rfl

end Demand

structure Pool where
  taken : Nat := 0
  entries : List Entry := []

namespace Pool

def empty : Pool := {}

def size (p : Pool) : Nat := p.entries.length

def isEmpty (p : Pool) : Bool := p.entries.isEmpty

def get? (p : Pool) (i : Nat) : Option Entry := p.entries[i]?

/-- The entries of a batch of which the first has the number `n`. -/
def intake : Nat → List Offer → List Entry
  | _,[] => []
  | n,o :: os => .ofOffer n o :: intake (n+1) os

/-- Takes in a batch and lets every former entry go. -/
def replace (p : Pool) (os : List Offer) : Pool where
  taken := p.taken + os.length
  entries := intake p.taken os

/-- The pool without the entry at an index, whose place the last entry takes. -/
def drop (p : Pool) (i : Nat) : Pool :=
  match p.entries.getLast? with
  | none => p
  | some last => { p with entries := (p.entries.set i last).dropLast }

/-- Takes the entry at an index out of the pool, if there is one. -/
def remove? (p : Pool) (i : Nat) : Option (Entry × Pool) :=
  (p.get? i).map fun e => (e,p.drop i)

/-- A call for the entry at an index: its answer, and the pool that it leaves. It fails if there is no
such entry, before anything is moved. -/
def withdraw (p : Pool) (i : Nat) : Option Entry × Pool :=
  match p.remove? i with
  | none => (none,p)
  | some (e,p) => (some e,p)

/-- The answers to a sequence of such calls, and the pool that they leave. -/
def withdrawEach (p : Pool) : List Nat → List (Option Entry) × Pool
  | [] => ([],p)
  | i :: is =>
    let (x,p) := p.withdraw i
    let (xs,p) := p.withdrawEach is
    (x :: xs,p)

def set (p : Pool) (i : Nat) (e : Entry) : Pool := { p with entries := p.entries.set i e }

/-- The first entry of which a property holds, with its index. -/
def find? (p : Pool) (good : Entry → Bool) : Option (Entry × Nat) :=
  p.entries.zipIdx.find? fun e => good e.1

/-- The entries that no task has been given, whose offers may be declined. -/
def declinable (p : Pool) : List Entry := p.entries.filter fun e => !e.accepted

@[simp] theorem intake_length (n : Nat) (os : List Offer) : (intake n os).length = os.length := by
  induction os generalizing n <;> simp_all [intake]

@[simp] theorem replace_size (p : Pool) (os : List Offer) : (p.replace os).size = os.length := by
  simp [replace,size]

end Pool
end OfferAllocation
