import Mathlib.Data.Set.Card
import OfferAllocation.Store

/-! Stores as finite maps: the number of their keys, and what becomes of a store when its values are
changed one by one. -/
namespace OfferAllocation
namespace Store

variable {κ ν μ : Type}

theorem encard_bound [DecidableEq κ] (s : Store κ ν) : {k | s.get? k ≠ none}.encard = s.size := by
  have hkeys : {k | s.get? k ≠ none} = ((s.entries.map Prod.fst).toFinset : Set κ) := by
    ext k
    simp [get?]
  rw [hkeys,Set.encard_coe_eq_coe_finsetCard,List.toFinset_card_of_nodup s.distinct]
  simp [size]

theorem isEmpty_iff [DecidableEq κ] (s : Store κ ν) : s.isEmpty = true ↔ ∀ k, s.get? k = none := by
  have hempty : s.isEmpty = true ↔ {k | s.get? k ≠ none}.encard = 0 := by
    rw [encard_bound,isEmpty,beq_iff_eq,Nat.cast_eq_zero]
  simp [hempty,Set.eq_empty_iff_forall_notMem]

/-- The store with each of its values changed by a function. -/
def map (f : ν → μ) (s : Store κ ν) : Store κ μ where
  entries := s.entries.map fun e => (e.1,f e.2)
  distinct := by simpa [Function.comp_def] using s.distinct

variable [DecidableEq κ] (f : ν → μ) (s : Store κ ν) (k : κ)

theorem get?_map : (s.map f).get? k = (s.get? k).map f := by
  simp [get?,map,List.find?_map,Function.comp_def]

theorem map_erase : (s.erase k).map f = (s.map f).erase k := by
  simp only [map,erase,List.filter_map,Function.comp_def]

theorem map_insert (v : ν) : (s.insert k v).map f = (s.map f).insert k (f v) := by
  simp only [map,insert,erase,List.map_cons,List.filter_map,Function.comp_def]

end Store
end OfferAllocation
