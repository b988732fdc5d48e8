import OfferAllocation.Filter

/-! The log of what an allocator has done: one event for each call that took effect. -/
namespace OfferAllocation

inductive Event
  | received (offers : Nat)
  | registered (task : String) (filters : Nat) (strategy : Option Strategy)
  | cleared (task : String) (hadFilters hadStrategy : Bool)
  | assigned (task offer : String) (strategy : Strategy) (retained : Bool)
  deriving DecidableEq

namespace Event

def message : Event → String
  | .received _ => "offer batch received"
  | .registered _ _ _ => "registered task constraints"
  | .cleared _ _ _ => "cleared task constraints"
  | .assigned _ _ _ _ => "assigned offer"

/-- The strategy that a registration set, as the log spells it. -/
def strategyText : Option Strategy → String
  | none => "None"
  | some .nonMux => "Some(NonMux)"
  | some .mux => "Some(Mux)"

end Event
end OfferAllocation
