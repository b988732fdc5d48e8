import OfferAllocation.Proofs.Amount
import OfferAllocation.Proofs.Life

/-! Consumption. A task that is given an offer takes from what the offer has left. No check looks at
the sign of a demand, however, and what a demand below zero takes is added: this is the one way in
which an entry of the pool can grow between two intakes. -/
namespace OfferAllocation

theorem Amount.not_lt_self (x : Float) : ¬ x < x := fun h => (lt_iff.mp h).2.2.false

namespace Allocator

/-- No two entries of a pool come to share a number. -/
theorem distinct_run {a : Allocator} (h : a.manager.pool.Distinct) (cs : List Call) :
    (a.run cs).2.manager.pool.Distinct := by
  obtain hnone | ⟨pre,os,post,rfl,hpost⟩ := exists_last_intake cs
  · exact ((Tracks.refl h).run hnone).distinct
  · rw [run_append]
    exact (Tracks.ofBatch (a.run pre).2 os hpost).distinct

/-- An entry that is still there after a task has been served is as it was, unless the task was given
it. -/
theorem numbered_step_assign {a : Allocator} {t : Task} (h : a.manager.pool.Distinct) {n : Nat}
    {left : Entry} (hleft : (a.step (.assign t)).2.manager.pool.numbered n = some left) :
    ∃ e, a.manager.pool.numbered n = some e ∧
      if (a.step (.assign t)).1.given? = some n then left = (Demand.ofTask t).take e ∧ a.Suits t e
      else left = e := by
  obtain hnone | ⟨i,e,hfirst⟩ := a.step_assign_cases t
  · rw [step_assign_of_none hnone] at hleft ⊢
    exact ⟨left,hleft,by simp [Report.given?]⟩
  · have hnumbered := Pool.numbered_at h hfirst.entry
    rw [step_assign_of_firstAt hfirst] at hleft ⊢
    simp only [withPool_pool] at hleft
    rw [Pool.numbered_set_or_drop h hfirst.entry (Demand.take_position ..)] at hleft
    split_ifs at hleft with hn hkeep
    · obtain rfl := Option.some.inj hleft
      subst hn
      exact ⟨e,hnumbered,by simp [Report.given?,hfirst.suits]⟩
    · exact ⟨left,hleft,by simp [Report.given?,hn]⟩

end Allocator

/-- An amount that stays in the pool is greater after a task has been served exactly if it is the
task that was given it, with a demand below zero that rounding does not swallow. -/
theorem raised_iff_demand_negative (r : Registry) (c : Config) (cs : List Call) (t : Task) (n : Nat)
    (left : Entry) :
    let a := ((Allocator.mk r (.ofConfig c)).run cs).2
    let served := a.step (.assign t)
    let d := Demand.ofTask t
    served.2.manager.pool.numbered n = some left →
      ∃ e, a.manager.pool.numbered n = some e ∧
        (left.cpu > e.cpu ↔
          served.1.given? = some n ∧ d.cpu < 0 ∧ (e.cpu - d.cpu == e.cpu) = false) ∧
        (left.mem > e.mem ↔
          served.1.given? = some n ∧ d.mem < 0 ∧ (e.mem - d.mem == e.mem) = false) := by
  intro a served d hleft
  have hdistinct : a.manager.pool.Distinct :=
    Allocator.distinct_run (a := .mk r (.ofConfig c)) List.nodup_nil cs
  obtain ⟨e,he,hcase⟩ := Allocator.numbered_step_assign hdistinct hleft
  refine ⟨e,he,?_⟩
  split_ifs at hcase with hgiven
  · obtain ⟨rfl,hsuits⟩ := hcase
    simp only [served,d,hgiven,true_and]
    exact ⟨Amount.lt_sub_iff hsuits.cpu,Amount.lt_sub_iff hsuits.mem⟩
  · subst hcase
    simp [served,hgiven,Amount.not_lt_self]

theorem raised_iff_demand_negative_credit :
    let task (name : String) (cpu : Float) := Task.named name [.cpus cpu]
    let offer : Offer := { id := "o1", resources := [.cpus 1,.mem 512] }
    let cs : List Call := [.register (task "t1" 0) [⟨"strategy",["mux"]⟩],.offers [offer]]
    let a := ((Allocator.mk .empty (.ofConfig {})).run cs).2
    let served := a.step (.assign (task "t1" (-1)))
    ∃ left, served.2.manager.pool.numbered 0 = some left ∧
      ∃ e, a.manager.pool.numbered 0 = some e ∧ left.cpu > e.cpu ∧ ¬ left.mem > e.mem := by
  intro task offer cs a served
  obtain ⟨left,hleft⟩ : ∃ left, served.2.manager.pool.numbered 0 = some left :=
    Option.isSome_iff_exists.mp (by decide +kernel)
  obtain ⟨e,he,hcpu,hmem⟩ := raised_iff_demand_negative .empty {} cs (task "t1" (-1)) 0 left hleft
  have hbefore : (a.manager.pool.numbered 0).map Entry.cpu = some 1 := by decide +kernel
  have hone : e.cpu = 1 := by
    rw [show a.manager.pool.numbered 0 = some e from he] at hbefore
    exact Option.some.inj hbefore
  refine ⟨left,hleft,e,he,hcpu.mpr ⟨by decide +kernel,by decide +kernel,?_⟩,fun h => ?_⟩
  · rw [hone]
    decide +kernel
  · have hnegative : ¬ (Demand.ofTask (task "t1" (-1))).mem < 0 := by decide +kernel
    exact hnegative (hmem.mp h).2.1

/-- A demand below zero makes an entry grow, and makes room for a task that was refused before. -/
theorem negative_demand_makes_room :
    let task (name : String) (cpu : Float) := Task.named name [.cpus cpu]
    let offer : Offer := { id := "o1", resources := [.cpus 1,.mem 512] }
    let a := ((Allocator.mk .empty (.ofConfig {})).run [.register (task "t1" 0)
      [⟨"strategy",["mux"]⟩],.offers [offer]]).2
    let served := a.step (.assign (task "t1" (-1)))
    a.manager.pool.entries.map Entry.cpu = [1] ∧
      (a.step (.assign (task "big" 2))).1.given? = none ∧ served.1.given? = some 0 ∧
      served.2.manager.pool.entries.map Entry.cpu = [2] ∧
      (served.2.step (.assign (task "big" 2))).1.given? = some 0 := by
  decide +kernel

end OfferAllocation
