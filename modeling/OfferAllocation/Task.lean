import OfferAllocation.Resource

/-! Tasks and what they demand of a single offer. -/
namespace OfferAllocation

/-- A task. Filters are registered under its name. -/
structure Task where
  name : String
  taskId : String := ""
  resources : List Resource := []
  deriving BEq

namespace Task

/-- A task known by its name alone. -/
def named (name : String) (resources : List Resource) : Task := ⟨name,name,resources⟩

def fields : Fields [String,String,List Resource] :=
  .cons (.required "name" .string) <| .cons (.defaulted "task_id" .string "") <|
  .cons (.defaulted "resources" (.list Resource.codec) []) .nil

def codec : Codec Task :=
  fields.codec (fun (n,i,rs,_) => ⟨n,i,rs⟩) fun t => (t.name,t.taskId,t.resources,())

end Task

structure Demand where
  cpu : Float
  mem : Float
  disk : Option Disk

namespace Demand

/-- The amounts of all lines of a name, added up in order from zero. -/
def total (name : String) (rs : List Resource) : Float :=
  (linesNamed name rs).foldl (fun sum r => sum + r.value) 0

/-- A task demands the sums of its amounts, and the last disk that it describes. -/
def ofTask (t : Task) : Demand where
  cpu := total "cpus" t.resources
  mem := total "mem" t.resources
  disk := ((linesNamed "disk" t.resources).filterMap Resource.disk).getLast?

end Demand
end OfferAllocation
