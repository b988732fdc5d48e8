import OfferAllocation.Json.Record

/-! Resource lines: a name with a scalar amount or a disk descriptor. Offers advertise such lines
and tasks demand them. -/
namespace OfferAllocation

/-- A disk, by a persistent volume and its owner and by the two ends of its mount. -/
structure Disk where
  persistenceId : Option String := none
  principal : Option String := none
  containerPath : Option String := none
  hostPath : Option String := none
  deriving DecidableEq

namespace Disk

def fields : Fields [Option String,Option String,Option String,Option String] :=
  .cons (.optional "persistence_id" .string) <| .cons (.optional "principal" .string) <|
  .cons (.optional "container_path" .string) <| .cons (.optional "host_path" .string) .nil

def codec : Codec Disk :=
  fields.codec (fun (v,p,c,h,_) => ⟨v,p,c,h⟩)
    fun d => (d.persistenceId,d.principal,d.containerPath,d.hostPath,())

end Disk

structure Resource where
  name : String
  scalar : Option Float := none
  disk : Option Disk := none
  deriving BEq

namespace Resource

/-- The line of an amount under any name. -/
def amount (name : String) (x : Float) : Resource := { name, scalar := some x }

def cpus : Float → Resource := amount "cpus"

def mem : Float → Resource := amount "mem"

def ofDisk (d : Disk) : Resource := { name := "disk", disk := some d }

/-- The amount of a line, zero where it carries none. -/
def value (r : Resource) : Float := r.scalar.getD 0

def fields : Fields [String,Option Float,Option Disk] :=
  .cons (.required "name" .string) <| .cons (.optional "scalar" .double) <|
  .cons (.optional "disk" Disk.codec) .nil

def codec : Codec Resource :=
  fields.codec (fun (n,x,d,_) => ⟨n,x,d⟩) fun r => (r.name,r.scalar,r.disk,())

end Resource

/-- The lines of one name, in order. -/
def linesNamed (name : String) (rs : List Resource) : List Resource :=
  rs.filter fun r => r.name == name

end OfferAllocation
