/-! Stores: finite maps by key. A key has at most one binding, and the order of bindings is of no
account. -/
namespace OfferAllocation

structure Store (κ ν : Type) where
  entries : List (κ × ν)
  distinct : (entries.map Prod.fst).Nodup

namespace Store

variable {κ ν : Type} [DecidableEq κ]

def empty : Store κ ν := ⟨[],by simp⟩

def get? (s : Store κ ν) (k : κ) : Option ν :=
  (s.entries.find? fun e => e.1 = k).map Prod.snd

def contains (s : Store κ ν) (k : κ) : Bool := (s.get? k).isSome

def size (s : Store κ ν) : Nat := s.entries.length

def isEmpty (s : Store κ ν) : Bool := s.size == 0

def erase (s : Store κ ν) (k : κ) : Store κ ν where
  entries := s.entries.filter fun e => e.1 ≠ k
  distinct := (List.filter_sublist.map _).nodup s.distinct

/-- Binds a key, in place of any former binding of it. -/
def insert (s : Store κ ν) (k : κ) (v : ν) : Store κ ν where
  entries := (k,v) :: (s.erase k).entries
  distinct := by
    refine List.nodup_cons.mpr ⟨?_,(s.erase k).distinct⟩
    simp [erase]

@[simp] theorem get?_empty (k : κ) : (empty : Store κ ν).get? k = none := rfl

theorem get?_erase (s : Store κ ν) (k k' : κ) :
    (s.erase k).get? k' = if k = k' then none else s.get? k' := by
  obtain ⟨es,_⟩ := s
  simp only [get?,erase]
  induction es with
  | nil => simp
  | cons e es ih =>
    have ih := ih (by simp_all)
    by_cases he : e.1 = k <;> by_cases hk : e.1 = k' <;> simp_all
    exact Ne.symm he

theorem get?_insert (s : Store κ ν) (k k' : κ) (v : ν) :
    (s.insert k v).get? k' = if k = k' then some v else s.get? k' := by
  by_cases h : k = k'
  · simp [get?,insert,h]
  · have he := get?_erase s k k'
    simp only [h,if_false] at he ⊢
    rw [← he]
    simp [get?,insert,h]

end Store
end OfferAllocation
