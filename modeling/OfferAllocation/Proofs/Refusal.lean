import OfferAllocation.Proofs.Amount
import OfferAllocation.Proofs.FirstFit
import OfferAllocation.Proofs.Session

/-! Refusals. Entries only shrink, so what did not suit a task when it was refused does not suit it
later: calls that bring no offers and leave the task's own registration alone do not help it. -/
namespace OfferAllocation

/-- A call that does not help the task: it assigns a task of which no demand is negative, it
registers or clears another name, or it is a registration that is rejected. -/
inductive Call.Spares (t : Task) : Call → Prop
  | assign {u : Task} (cpu : (Demand.ofTask u).cpu ≥ 0) (mem : (Demand.ofTask u).mem ≥ 0) :
    Spares t (.assign u)
  | elsewhere {c : Call} {r : Registration} (call : c.registration? = some r)
      (other : r.task ≠ t.name) : Spares t c
  | rejected {u : Task} {fs : List Filter} {e : RegistryError}
      (error : Batch.ofFilters u.name fs = .error e) : Spares t (.register u fs)

namespace Allocator

/-- No entry suits the task. -/
def Refuses (a : Allocator) (t : Task) : Prop := ∀ e ∈ a.manager.pool.entries, ¬ a.Suits t e

instance (a : Allocator) (t : Task) : Decidable (a.Refuses t) :=
  decidable_of_iff (∀ e ∈ a.manager.pool.entries, a.manager.suits a.registry t e = false)
    (forall₂_congr fun _ _ => not_suits_iff)

variable {a a' : Allocator} {t u : Task} {e : Entry} {c : Call}

theorem refuses_iff :
    a.Refuses t ↔ (a.step (.assign t)).1.answer = .refused (.noSuitableOffer t.name) := by
  constructor
  · intro h
    rw [step_assign_of_none h]
  · intro h
    obtain hnone | ⟨i,e,hfirst⟩ := step_assign_cases a t
    · exact hnone
    · rw [step_assign_of_firstAt hfirst] at h
      contradiction

/-- An entry suits a task under the same filters and the same mode. -/
theorem Suits.congr (h : a.Suits t e) (hf : a'.registry.filters t.name = a.registry.filters t.name)
    (hm : a'.manager.mode = a.manager.mode) : a'.Suits t e :=
  ⟨fun cs hcs => by rw [hm]; exact h.admitted cs (hf ▸ hcs),h.cpu,h.mem⟩

/-- What is left of an entry after a demand that is not negative suits no task that the whole entry
did not suit. -/
theorem Suits.of_take {d : Demand} (hcpu : d.cpu ≥ 0) (hmem : d.mem ≥ 0)
    (h : a.Suits t (d.take e)) : a.Suits t e where
  admitted := h.admitted
  cpu := Amount.sub_nonneg_of_sub_sub hcpu h.cpu
  mem := Amount.sub_nonneg_of_sub_sub hmem h.mem

/-- Where the entries of a pool come from that a task has been assigned from. -/
theorem mem_entries_step_assign (he : e ∈ (a.step (.assign u)).2.manager.pool.entries) :
    e ∈ a.manager.pool.entries ∨ ∃ e' ∈ a.manager.pool.entries, e = (Demand.ofTask u).take e' := by
  obtain hnone | ⟨i,e',hfirst⟩ := step_assign_cases a u
  · rw [step_assign_of_none hnone] at he
    exact .inl he
  · rw [step_assign_of_firstAt hfirst] at he
    simp only [withPool_pool] at he
    split_ifs at he
    · obtain he | rfl := List.mem_or_eq_of_mem_set he
      · exact .inl he
      · exact .inr ⟨e',List.mem_of_getElem? hfirst.entry,rfl⟩
    · exact .inl ((Pool.drop_perm hfirst.entry).subset (List.mem_cons_of_mem _ he))

theorem step_assign_mode : (a.step (.assign u)).2.manager.mode = a.manager.mode := by
  obtain hnone | ⟨i,e',hfirst⟩ := step_assign_cases a u
  · rw [step_assign_of_none hnone]
  · rw [step_assign_of_firstAt hfirst]
    rfl

theorem step_assign_registry : (a.step (.assign u)).2.registry = a.registry := step_registry a _

namespace Refuses

theorem step_assign (h : a.Refuses t) (hcpu : (Demand.ofTask u).cpu ≥ 0)
    (hmem : (Demand.ofTask u).mem ≥ 0) : (a.step (.assign u)).2.Refuses t := by
  intro e he hsuits
  have hbefore : a.Suits t e :=
    hsuits.congr (by rw [step_assign_registry]) step_assign_mode.symm
  obtain he | ⟨e',he',rfl⟩ := mem_entries_step_assign he
  · exact h e he hbefore
  · exact h e' he' (hbefore.of_take hcpu hmem)

theorem step_registration {r : Registration} (h : a.Refuses t) (hc : c.registration? = some r)
    (hr : r.task ≠ t.name) : (a.step c).2.Refuses t := by
  have hmanager := a.step_manager (c := c) (by rw [hc]; rfl)
  have hagree : Registry.AgreeOn t.name (a.registry.next r) a.registry :=
    Registry.AgreeOn.next_of_ne ⟨rfl,rfl⟩ hr
  have hregistry : (a.step c).2.registry = a.registry.next r := by
    rw [step_registry,hc]
    rfl
  intro e he hsuits
  rw [hmanager] at he
  exact h e he (hsuits.congr (by rw [hregistry,hagree.filters]) (by rw [hmanager]))

theorem step_rejected {fs : List Filter} {e : RegistryError} (h : a.Refuses t)
    (he : Batch.ofFilters u.name fs = .error e) : (a.step (.register u fs)).2.Refuses t := by
  simpa [step,he] using h

theorem step (h : a.Refuses t) (hc : c.Spares t) : (a.step c).2.Refuses t := by
  cases hc with
  | assign hcpu hmem => exact h.step_assign hcpu hmem
  | elsewhere hcall hother => exact h.step_registration hcall hother
  | rejected herror => exact h.step_rejected herror

theorem run (h : a.Refuses t) {cs : List Call} (hcs : ∀ c ∈ cs, c.Spares t) :
    (a.run cs).2.Refuses t := by
  induction cs generalizing a with
  | nil => exact h
  | cons c cs ih =>
    rw [List.forall_mem_cons] at hcs
    exact ih (h.step hcs.1) hcs.2

end Refuses

/-- A task that has been refused is refused again, and nothing changes, after any calls that do not
help it. -/
theorem refusal_lasts (a : Allocator) (t : Task) (cs : List Call) (hcs : ∀ c ∈ cs, c.Spares t)
    (h : (a.step (.assign t)).1.answer = .refused (.noSuitableOffer t.name)) :
    (a.run cs).2.step (.assign t) = (⟨.refused (.noSuitableOffer t.name),[]⟩,(a.run cs).2) :=
  step_assign_of_none ((refuses_iff.mpr h).run hcs)

theorem refusal_lasts_big :
    let task (name : String) (cpu mem : Float) := Task.named name [.cpus cpu,.mem mem]
    let offer (id : String) (cpu mem : Float) : Offer := { id, resources := [.cpus cpu,.mem mem] }
    let a := ((Allocator.mk .empty (.ofConfig {})).run [.register (task "t1" 1 512)
      [⟨"strategy",["mux"]⟩],.offers [offer "o1" 4 4096,offer "o2" 1 128]]).2
    let big := task "big" 8 512
    let cs : List Call := [.assign (task "t1" 1 512),.register big [⟨"size",["large"]⟩],
      .assign (task "t1" 8 512),.clear (task "t1" 1 512),.register (task "t2" 1 128) []]
    (a.step (.assign big)).1.answer = .refused (.noSuitableOffer "big") ∧
      (∀ c ∈ cs, c.Spares big) ∧
      (a.run cs).2.manager.pool.entries.map Entry.cpu = [3,1] ∧
      (a.run cs).2.step (.assign big) =
        (⟨.refused (.noSuitableOffer "big"),[]⟩,(a.run cs).2) := by
  intro task offer a big cs
  have h : (a.step (.assign big)).1.answer = .refused (.noSuitableOffer "big") :=
    refuses_iff.mp (by decide +kernel)
  have hcs : ∀ c ∈ cs, c.Spares big := by
    simp only [cs,List.forall_mem_cons]
    refine ⟨.assign ?_ ?_,.rejected rfl,.assign ?_ ?_,.elsewhere rfl ?_,.elsewhere rfl ?_,
      List.forall_mem_nil _⟩
    all_goals decide +kernel
  exact ⟨h,hcs,by decide +kernel,refusal_lasts a big cs hcs h⟩

end Allocator
end OfferAllocation
