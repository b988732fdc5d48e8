import OfferAllocation.Attribute
import OfferAllocation.Resource

/-! Offers: bundles of resources that an agent advertises, with the attributes of its host. -/
namespace OfferAllocation

structure Offer where
  id : String
  agentId : String := ""
  hostname : String := ""
  resources : List Resource := []
  attributes : List Attribute := []
  deriving BEq

namespace Offer

def fields : Fields [String,String,String,List Resource,List Attribute] :=
  .cons (.required "id" .string) <| .cons (.defaulted "agent_id" .string "") <|
  .cons (.defaulted "hostname" .string "") <|
  .cons (.defaulted "resources" (.list Resource.codec) []) <|
  .cons (.defaulted "attributes" (.list Attribute.codec) []) .nil

def codec : Codec Offer :=
  fields.codec (fun (i,a,h,rs,as,_) => ⟨i,a,h,rs,as⟩)
    fun o => (o.id,o.agentId,o.hostname,o.resources,o.attributes,())

end Offer
end OfferAllocation
