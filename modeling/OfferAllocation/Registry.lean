import OfferAllocation.Filter
import OfferAllocation.Store

/-! The registry of constraints: for each task name a list of filters and a strategy. A batch of
filters is looked at as a whole before any of it takes effect. -/
namespace OfferAllocation

inductive RegistryError
  | invalidKind (kind : String)
  | missingStrategy (task : String)
  deriving DecidableEq

def RegistryError.message : RegistryError → String
  | .invalidKind kind =>
    "invalid filter passed in: " ++ kind ++
      ". Allowed filters are SCALAR, TEXT, SET, RANGES, and STRATEGY"
  | .missingStrategy task => "strategy filter for task " ++ task ++ " has no value"

/-- What a filter is taken for. -/
inductive Directive
  | constraint (c : Constraint)
  | strategy (s : Strategy)
  deriving DecidableEq

namespace Directive

/-- A filter of the kind `strategy` names one by its first value; any other kind must be one of
those of attributes. -/
def ofFilter (task : String) (f : Filter) : Except RegistryError Directive :=
  if Text.sameAscii f.kind "strategy" then
    match f.values with
    | [] => .error (.missingStrategy task)
    | v :: _ => .ok (.strategy (.ofName v))
  else match FilterKind.ofName? f.kind with
    | none => .error (.invalidKind f.kind)
    | some kind => .ok (.constraint ⟨kind,f.values⟩)

def constraint? : Directive → Option Constraint
  | .constraint c => some c
  | .strategy _ => none

def strategy? : Directive → Option Strategy
  | .constraint _ => none
  | .strategy s => some s

end Directive

/-- A batch that has been found in order: its constraints, and the last strategy that it names. -/
structure Batch where
  constraints : List Constraint
  strategy : Option Strategy
  deriving DecidableEq

def Batch.ofFilters (task : String) (fs : List Filter) : Except RegistryError Batch := do
  let ds ← fs.mapM (Directive.ofFilter task)
  return ⟨ds.filterMap Directive.constraint?,(ds.filterMap Directive.strategy?).getLast?⟩

structure Registry where
  lists : Store String (List Constraint)
  strategies : Store String Strategy

namespace Registry

def empty : Registry := ⟨.empty,.empty⟩

/-- The filters of a task in order of registration. -/
def filters (r : Registry) (task : String) : Option (List Constraint) := r.lists.get? task

def strategy (r : Registry) (task : String) : Option Strategy := r.strategies.get? task

/-- How many tasks have filters, and how many have a strategy. -/
def counts (r : Registry) : Nat × Nat := (r.lists.size,r.strategies.size)

/-- Enters a batch for a task. No list is begun for a batch without constraints. -/
def enter (r : Registry) (task : String) (b : Batch) : Registry where
  lists :=
    if b.constraints.isEmpty then r.lists
    else r.lists.insert task ((r.filters task).getD [] ++ b.constraints)
  strategies :=
    match b.strategy with
    | none => r.strategies
    | some s => r.strategies.insert task s

/-- Forgets all that is registered for a task. -/
def clear (r : Registry) (task : String) : Registry :=
  ⟨r.lists.erase task,r.strategies.erase task⟩

end Registry

/-- A call that changes a registry. -/
inductive Registration
  | add (task : String) (filters : List Filter)
  | clear (task : String)
  deriving DecidableEq

namespace Registry

def step (r : Registry) : Registration → Except RegistryError Registry
  | .add t fs => (Batch.ofFilters t fs).map (r.enter t)
  | .clear t => .ok (r.clear t)

/-- The registry that a call leaves. A call that is refused changes nothing. -/
def next (r : Registry) (c : Registration) : Registry :=
  match r.step c with
  | .ok r' => r'
  | .error _ => r

/-- The registry that a sequence of calls leaves. -/
def run (r : Registry) (cs : List Registration) : Registry := cs.foldl next r

end Registry
end OfferAllocation
