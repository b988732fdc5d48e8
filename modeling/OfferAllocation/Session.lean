import OfferAllocation.Event
import OfferAllocation.Manager

/-! Sessions: managers over one shared registry, and the calls that are made to them. -/
namespace OfferAllocation

/-- The calls to one manager. -/
inductive Call
  | offers (batch : List Offer)
  | register (task : Task) (filters : List Filter)
  | clear (task : Task)
  | assign (task : Task)

inductive ManagerError
  | noSuitableOffer (task : String)
  | registry (e : RegistryError)
  deriving DecidableEq

def ManagerError.message : ManagerError → String
  | .noSuitableOffer task => "cannot find a suitable offer for task " ++ task
  | .registry e => "constraint error: " ++ e.message

inductive Answer
  | done
  | assigned (entry : Entry)
  | refused (e : ManagerError)

/-- What a call gives back: its answer, and the events that it logged. -/
structure Report where
  answer : Answer
  log : List Event

/-- A manager with the registry that it reads. -/
structure Allocator where
  registry : Registry
  manager : Manager

namespace Allocator

def step (a : Allocator) : Call → Report × Allocator
  | .offers os => (⟨.done,[.received os.length]⟩,{ a with manager := a.manager.receive os })
  | .register t fs =>
    match Batch.ofFilters t.name fs with
    | .error e => (⟨.refused (.registry e),[]⟩,a)
    | .ok b => (⟨.done,[.registered t.name b.constraints.length b.strategy]⟩,
        { a with registry := a.registry.enter t.name b })
  | .clear t =>
    (⟨.done,[.cleared t.name (a.registry.filters t.name).isSome
        (a.registry.strategy t.name).isSome]⟩,
      { a with registry := a.registry.clear t.name })
  | .assign t =>
    match a.manager.assign? a.registry t with
    | none => (⟨.refused (.noSuitableOffer t.name),[]⟩,a)
    | some (s,m) => (⟨.assigned s.entry,[.assigned t.name s.entry.offer.id s.strategy s.retained]⟩,
        { a with manager := m })

/-- The reports on a sequence of calls, and the allocator that they leave. -/
def run (a : Allocator) : List Call → List Report × Allocator
  | [] => ([],a)
  | c :: cs =>
    let (r,a) := a.step c
    let (rs,a) := a.run cs
    (r :: rs,a)

end Allocator

/-- `intakes` names, for every offer that was taken in, the manager that took it. -/
structure Session where
  registry : Registry
  managers : List Manager
  intakes : List Nat := []

namespace Session

def start (m : Manager) : Session := ⟨.empty,[m],[]⟩

/-- Adds a manager with an empty pool. -/
def join (s : Session) (m : Manager) : Session := { s with managers := s.managers ++ [m] }

/-- A call to the manager with a number, if there is one. -/
def step? (s : Session) (n : Nat) (c : Call) : Option (Report × Session) :=
  s.managers[n]?.map fun m =>
    let (r,a) := (Allocator.mk s.registry m).step c
    let new := match c with
      | .offers os => List.replicate os.length n
      | _ => []
    (r,⟨a.registry,s.managers.set n a.manager,s.intakes ++ new⟩)

/-- The number, among all offers that were taken in, of the offer that manager `n` took in after
`position` others. -/
def serial (s : Session) (n position : Nat) : Option Nat :=
  (s.intakes.zipIdx.filter fun i => i.1 == n)[position]?.map Prod.snd

end Session
end OfferAllocation
