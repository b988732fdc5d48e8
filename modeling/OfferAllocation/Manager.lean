import OfferAllocation.Admission
import OfferAllocation.Config
import OfferAllocation.Pool
import OfferAllocation.Registry

/-! Managers. A manager assigns each task to the first offer in its pool that is open to the task
and can meet its demand; constraints and strategies come from a registry that it only reads. -/
namespace OfferAllocation

structure Manager where
  pool : Pool
  mode : FilterMode
  defaultStrategy : Strategy

/-- A match: the entry as it was left by the task, and whether it stays in the pool. -/
structure Assignment where
  entry : Entry
  strategy : Strategy
  retained : Bool

namespace Manager

def ofConfig (c : Config) : Manager :=
  ⟨.empty,c.allocator.filterMode,c.allocator.defaultStrategy⟩

def hasResources (m : Manager) : Bool := !m.pool.isEmpty

def receive (m : Manager) (os : List Offer) : Manager := { m with pool := m.pool.replace os }

/-- The strategy for a task: its own, or else that of the manager. -/
def strategyFor (m : Manager) (r : Registry) (task : String) : Strategy :=
  (r.strategy task).getD m.defaultStrategy

/-- The entry passes the filters that are registered for the task, if any are. -/
def isOpen (m : Manager) (r : Registry) (task : String) (e : Entry) : Bool :=
  (r.filters task).all fun cs => admits m.mode cs e.offer.attributes

def suits (m : Manager) (r : Registry) (t : Task) (e : Entry) : Bool :=
  m.isOpen r t.name e && (Demand.ofTask t).fits e

/-- Gives a task the first entry that suits it. The entry stays in the pool only under the strategy
that shares offers, and while neither of its axes is exhausted. -/
def assign? (m : Manager) (r : Registry) (t : Task) : Option (Assignment × Manager) :=
  (m.pool.find? (m.suits r t)).map fun (e,i) =>
    let left := (Demand.ofTask t).take e
    let strategy := m.strategyFor r t.name
    let retained := strategy == .mux && !left.exhausted
    let pool := m.pool.set i left
    (⟨left,strategy,retained⟩,{ m with pool := if retained then pool else pool.drop i })

/-- The offers to be declined. -/
def declinable (m : Manager) : List Entry := m.pool.declinable

end Manager
end OfferAllocation
