import OfferAllocation.Filter

/-! Configuration of a manager. -/
namespace OfferAllocation

structure AllocatorSettings where
  filterMode : FilterMode := .textOnly
  defaultStrategy : Strategy := .nonMux
  deriving DecidableEq

def AllocatorSettings.fields : Fields [FilterMode,Strategy] :=
  .cons (.defaulted "filter_mode" FilterMode.codec .textOnly) <|
  .cons (.defaulted "default_strategy" Strategy.codec .nonMux) .nil

def AllocatorSettings.codec : Codec AllocatorSettings :=
  fields.codec (fun (m,s,_) => ⟨m,s⟩) fun c => (c.filterMode,c.defaultStrategy,())

structure Config where
  allocator : AllocatorSettings := {}
  deriving DecidableEq

def Config.fields : Fields [AllocatorSettings] :=
  .cons (.defaulted "allocator" AllocatorSettings.codec {}) .nil

def Config.codec : Codec Config :=
  fields.codec (fun (a,_) => ⟨a⟩) fun c => (c.allocator,())

end OfferAllocation
