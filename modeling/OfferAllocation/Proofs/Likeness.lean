import OfferAllocation.Proofs.FirstFit

/-! Pools seen through a map of their offers. Every operation of a pool commutes with such a map, and a
task that is suited by the images as it is by the offers themselves is given the image of what it
would be given. -/
namespace OfferAllocation

variable (f : Offer → Offer)

def Entry.through (e : Entry) : Entry := { e with offer := f e.offer }

namespace Pool

/-- The pool with the image of every offer in its place. -/
def through (p : Pool) : Pool := { p with entries := p.entries.map (Entry.through f) }

theorem set_through (p : Pool) (i : Nat) (e : Entry) :
    (p.through f).set i (e.through f) = (p.set i e).through f := by
  simp [set,through,List.map_set]

theorem drop_through (p : Pool) (i : Nat) : (p.through f).drop i = (p.drop i).through f := by
  simp only [drop,through,List.getLast?_map]
  cases p.entries.getLast? <;> simp [List.map_set,List.map_dropLast]

variable {f}

/-- Images that hold what the offers hold are taken in as images. -/
theorem intake_through (hf : ∀ n o, Entry.ofOffer n (f o) = (Entry.ofOffer n o).through f) (n : Nat)
    (os : List Offer) : intake n (os.map f) = (intake n os).map (Entry.through f) := by
  induction os generalizing n with
  | nil => rfl
  | cons o os ih => rw [List.map_cons,intake,intake,List.map_cons,ih,hf]

theorem replace_through (hf : ∀ n o, Entry.ofOffer n (f o) = (Entry.ofOffer n o).through f)
    (p : Pool) (os : List Offer) : (p.through f).replace (os.map f) = (p.replace os).through f := by
  simp [replace,through,intake_through hf]

end Pool

namespace Allocator

variable {f} {a a' : Allocator} {t t' : Task}

/-- The pool of `a'` is that of `a` seen through the map, and an image suits `t'` just if what it is
the image of suits `t`. -/
structure SeenThrough (f : Offer → Offer) (a a' : Allocator) (t t' : Task) : Prop where
  pool : a'.manager.pool = a.manager.pool.through f
  suits : ∀ e, a'.Suits t' (e.through f) ↔ a.Suits t e

namespace SeenThrough

variable (h : SeenThrough f a a' t t')

include h

theorem none (hnone : ∀ e ∈ a.manager.pool.entries, ¬ a.Suits t e) :
    ∀ e ∈ a'.manager.pool.entries, ¬ a'.Suits t' e := by
  intro e' he' hs
  rw [h.pool] at he'
  obtain ⟨e,he,rfl⟩ := List.mem_map.mp he'
  exact hnone e he ((h.suits e).mp hs)

theorem firstAt {i : Nat} {e : Entry} (hfirst : a.FirstAt t i e) :
    a'.FirstAt t' i (e.through f) := by
  have hentries (j : Nat) :
      a'.manager.pool.entries[j]? = (a.manager.pool.entries[j]?).map (Entry.through f) := by
    rw [h.pool]
    exact List.getElem?_map ..
  refine ⟨by rw [hentries,hfirst.entry,Option.map_some],(h.suits e).mpr hfirst.suits,?_⟩
  intro j hj e' he' hs
  rw [hentries,Option.map_eq_some_iff] at he'
  obtain ⟨e,he,rfl⟩ := he'
  exact hfirst.least j hj e he ((h.suits e).mp hs)

end SeenThrough
end Allocator
end OfferAllocation
