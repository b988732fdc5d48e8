import OfferAllocation.Proofs.Pool
import OfferAllocation.Session

/-! First fit. What a call for a task does is given as a relation in terms of indices: the least
index whose entry suits the task, the entry as the task leaves it, and where all others stand
afterwards. The step of an allocator is that relation. -/
namespace OfferAllocation

/-- What the lines of a name ask for together, added up in order from zero. -/
def Task.asks (t : Task) (name : String) : Float :=
  (t.resources.filter fun r => r.name == name).foldl (fun sum r => sum + r.scalar.getD 0) 0

theorem Demand.ofTask_cpu (t : Task) : (ofTask t).cpu = t.asks "cpus" := rfl

theorem Demand.ofTask_mem (t : Task) : (ofTask t).mem = t.asks "mem" := rfl

/-- The strategy that is registered for a task is in force, or else that of the manager. -/
theorem Manager.strategyFor_eq (m : Manager) (r : Registry) (task : String) :
    m.strategyFor r task = (r.strategy task).getD m.defaultStrategy := rfl

namespace Allocator

/-- An entry suits a task if it passes the filters that are registered for the task, and if meeting
the demand would leave neither axis below zero. -/
structure Suits (a : Allocator) (t : Task) (e : Entry) : Prop where
  admitted : ∀ cs, a.registry.filters t.name = some cs →
    admits a.manager.mode cs e.offer.attributes = true
  cpu : e.cpu - t.asks "cpus" ≥ 0
  mem : e.mem - t.asks "mem" ≥ 0

/-- The least index of the pool whose entry suits a task. -/
structure FirstAt (a : Allocator) (t : Task) (i : Nat) (e : Entry) : Prop where
  entry : a.manager.pool.entries[i]? = some e
  suits : a.Suits t e
  least : ∀ j < i, ∀ e', a.manager.pool.entries[j]? = some e' → ¬ a.Suits t e'

def withPool (a : Allocator) (p : Pool) : Allocator :=
  { a with manager := { a.manager with pool := p } }

@[simp] theorem withPool_pool (a : Allocator) (p : Pool) : (a.withPool p).manager.pool = p := rfl

/-- The entry stays in the pool when the task has left it like this. -/
def keeps (a : Allocator) (t : Task) (left : Entry) : Bool :=
  (a.registry.strategy t.name).getD a.manager.defaultStrategy == .mux && !left.exhausted

theorem keeps_iff {a : Allocator} {t : Task} {left : Entry} :
    a.keeps t left = true ↔ (a.registry.strategy t.name).getD a.manager.defaultStrategy = .mux ∧
      (left.cpu == 0) = false ∧ (left.mem == 0) = false := by
  simp [keeps,Entry.exhausted]

variable {a : Allocator} {t : Task} {i : Nat} {e : Entry}

theorem suits_iff : a.manager.suits a.registry t e = true ↔ a.Suits t e := by
  simp only [Manager.suits,Manager.isOpen,Demand.fits,Bool.and_eq_true,decide_eq_true_eq,
    Option.all_eq_true]
  constructor
  · rintro ⟨hopen,hcpu,hmem⟩
    exact ⟨hopen,hcpu,hmem⟩
  · rintro ⟨hopen,hcpu,hmem⟩
    exact ⟨hopen,hcpu,hmem⟩

theorem not_suits_iff : a.manager.suits a.registry t e = false ↔ ¬ a.Suits t e := by
  rw [← suits_iff,Bool.not_eq_true]

theorem Suits.fits (h : a.Suits t e) : (Demand.ofTask t).fits e = true := by
  simpa [Demand.fits] using ⟨h.cpu,h.mem⟩

theorem find?_eq_some_iff_firstAt :
    a.manager.pool.find? (a.manager.suits a.registry t) = some (e,i) ↔ a.FirstAt t i e := by
  simp only [Pool.find?_eq_some_iff,suits_iff,not_suits_iff]
  constructor
  · rintro ⟨he,hs,hl⟩
    exact ⟨he,hs,hl⟩
  · rintro ⟨he,hs,hl⟩
    exact ⟨he,hs,hl⟩

theorem FirstAt.lt (h : a.FirstAt t i e) : i < a.manager.pool.entries.length :=
  (List.getElem?_eq_some_iff.mp h.entry).1

theorem step_assign_of_none (h : ∀ e ∈ a.manager.pool.entries, ¬ a.Suits t e) :
    a.step (.assign t) = (⟨.refused (.noSuitableOffer t.name),[]⟩,a) := by
  have hf : a.manager.pool.find? (a.manager.suits a.registry t) = none :=
    Pool.find?_eq_none_iff.mpr fun e he => not_suits_iff.mpr (h e he)
  simp [step,Manager.assign?,hf]

theorem step_assign_of_firstAt (h : a.FirstAt t i e) :
    a.step (.assign t) =
      let left := (Demand.ofTask t).take e
      (⟨.assigned left,[.assigned t.name e.offer.id
          ((a.registry.strategy t.name).getD a.manager.defaultStrategy) (a.keeps t left)]⟩,
        a.withPool (if a.keeps t left then a.manager.pool.set i left else a.manager.pool.drop i)) := by
  have hf := find?_eq_some_iff_firstAt.mpr h
  simp only [step,Manager.assign?,Manager.strategyFor_eq,hf,Option.map_some,Pool.drop_set h.lt]
  rfl

/-- All that a call for a task can do. -/
theorem step_assign_cases (a : Allocator) (t : Task) :
    (∀ e ∈ a.manager.pool.entries, ¬ a.Suits t e) ∨ ∃ i e, a.FirstAt t i e := by
  cases hf : a.manager.pool.find? (a.manager.suits a.registry t) with
  | none => exact .inl fun e he => not_suits_iff.mp (Pool.find?_eq_none_iff.mp hf e he)
  | some found => exact .inr ⟨found.2,found.1,find?_eq_some_iff_firstAt.mp hf⟩

/-- What a task makes of an entry: both axes are debited, a disk is replaced if the task brings one,
and the entry is marked. -/
structure Debited (t : Task) (e left : Entry) : Prop where
  position : left.position = e.position
  offer : left.offer = e.offer
  cpu : left.cpu = e.cpu - t.asks "cpus"
  mem : left.mem = e.mem - t.asks "mem"
  disk : left.disk = (Demand.ofTask t).disk.or e.disk
  accepted : left.accepted = true

theorem debited_iff {e left : Entry} : Debited t e left ↔ left = (Demand.ofTask t).take e := by
  constructor
  · rintro ⟨hp,ho,hc,hm,hd,ha⟩
    obtain ⟨position,offer,cpu,mem,disk,accepted⟩ := left
    simp_all [Demand.take,Demand.ofTask_cpu,Demand.ofTask_mem]
  · rintro rfl
    exact ⟨rfl,rfl,rfl,rfl,rfl,rfl⟩

/-- An index is given up: what stood last comes to stand there, unless it stood there already, and
all other entries stay where they are. -/
structure ClosedUp (i : Nat) (before after : List Entry) : Prop where
  length : after.length + 1 = before.length
  moved : i < after.length → after[i]? = before.getLast?
  kept : ∀ j < after.length, j ≠ i → after[j]? = before[j]?

theorem closedUp_iff {p : Pool} {es : List Entry} (h : i < p.entries.length) :
    ClosedUp i p.entries es ↔ es = (p.drop i).entries := by
  have hlen := Pool.drop_length h
  constructor
  · rintro ⟨hes,hm,hk⟩
    apply List.ext_getElem?
    intro j
    by_cases hj : j < es.length
    · rw [Pool.drop_getElem? h (by omega)]
      split_ifs with hji
      · subst j
        exact hm hj
      · exact hk j hj hji
    · rw [List.getElem?_eq_none (by omega),List.getElem?_eq_none (by omega)]
  · rintro rfl
    refine ⟨hlen,fun hi => ?_,fun j hj hji => ?_⟩
    · simp [Pool.drop_getElem? h hi]
    · simp [Pool.drop_getElem? h hj,hji]

/-- The three ways in which a task is answered. A refusal changes nothing at all; the pool keeps the
entry that was given only under the strategy that shares offers, and while something is left on
both axes. -/
inductive FirstFit (a : Allocator) (t : Task) : Report × Allocator → Prop
  | refused (none : ∀ e ∈ a.manager.pool.entries, ¬ a.Suits t e) :
    FirstFit a t (⟨.refused (.noSuitableOffer t.name),[]⟩,a)
  | kept {i : Nat} {e left : Entry} (first : a.FirstAt t i e)
      (debited : Debited t e left)
      (shared : (a.registry.strategy t.name).getD a.manager.defaultStrategy = .mux ∧
        (left.cpu == 0) = false ∧ (left.mem == 0) = false) :
    FirstFit a t (⟨.assigned left,[.assigned t.name e.offer.id .mux true]⟩,
      a.withPool { a.manager.pool with entries := a.manager.pool.entries.set i left })
  | gone {i : Nat} {e left : Entry} {strategy : Strategy} {es : List Entry}
      (first : a.FirstAt t i e) (debited : Debited t e left)
      (effective : (a.registry.strategy t.name).getD a.manager.defaultStrategy = strategy)
      (spent : strategy = .nonMux ∨ (left.cpu == 0) = true ∨ (left.mem == 0) = true)
      (closed : ClosedUp i a.manager.pool.entries es) :
    FirstFit a t (⟨.assigned left,[.assigned t.name e.offer.id strategy false]⟩,
      a.withPool { a.manager.pool with entries := es })

theorem keeps_eq_false_iff {left : Entry} :
    a.keeps t left = false ↔ (a.registry.strategy t.name).getD a.manager.defaultStrategy = .nonMux ∨
      (left.cpu == 0) = true ∨ (left.mem == 0) = true := by
  simp only [keeps,Entry.exhausted,Bool.and_eq_false_iff,Bool.not_eq_false',Bool.or_eq_true]
  cases (a.registry.strategy t.name).getD a.manager.defaultStrategy <;> simp

/-- The call for a task is exactly the first fit. -/
theorem firstFit_iff_step (a : Allocator) (t : Task) (out : Report × Allocator) :
    FirstFit a t out ↔ a.step (.assign t) = out := by
  constructor
  · intro h
    cases h with
    | refused hnone => exact step_assign_of_none hnone
    | kept hfirst hdebited hshared =>
      obtain rfl := debited_iff.mp hdebited
      have hkeep := keeps_iff.mpr hshared
      rw [step_assign_of_firstAt hfirst]
      simp [hkeep,hshared.1,Pool.set]
    | gone hfirst hdebited heffective hspent hclosed =>
      obtain rfl := debited_iff.mp hdebited
      obtain rfl := (closedUp_iff hfirst.lt).mp hclosed
      subst heffective
      have hkeep := keeps_eq_false_iff.mpr hspent
      rw [step_assign_of_firstAt hfirst]
      simp [hkeep]
  · rintro rfl
    obtain hnone | ⟨i,e,hfirst⟩ := step_assign_cases a t
    · rw [step_assign_of_none hnone]
      exact .refused hnone
    · rw [step_assign_of_firstAt hfirst]
      have hdebited := debited_iff.mpr (Eq.refl ((Demand.ofTask t).take e))
      cases hkeep : a.keeps t ((Demand.ofTask t).take e) with
      | true =>
        have hshared := keeps_iff.mp hkeep
        have h := FirstFit.kept hfirst hdebited hshared
        simpa [hkeep,hshared.1,Pool.set] using h
      | false =>
        have hclosed := (closedUp_iff hfirst.lt).mpr (Eq.refl (a.manager.pool.drop i).entries)
        have h := FirstFit.gone hfirst hdebited rfl (keeps_eq_false_iff.mp hkeep) hclosed
        simpa [hkeep] using h

end Allocator
end OfferAllocation
