import OfferAllocation.Proofs.History
import OfferAllocation.Proofs.Session

/-! The order of registration. The filters of a task are a set to the managers that read them: two
registries that hold the same set and the same strategy for each task serve equally well, and no call
tells them apart. -/
namespace OfferAllocation

theorem admits_congr {mode : FilterMode} {cs cs' : List Constraint} (as : List Attribute)
    (h : ∀ c, c ∈ cs ↔ c ∈ cs') : admits mode cs as = admits mode cs' as := by
  have hempty : cs = [] ↔ cs' = [] := by simp only [List.eq_nil_iff_forall_not_mem,h]
  rw [Bool.eq_iff_iff]
  simp only [admits,Bool.or_eq_true,List.isEmpty_iff,List.any_eq_true,hempty,h]

theorem Manager.isOpen_eq (m : Manager) (r : Registry) (task : String) (e : Entry) :
    m.isOpen r task e = admits m.mode ((r.filters task).getD []) e.offer.attributes := by
  rw [isOpen]
  cases r.filters task <;> rfl

namespace Registry

/-- Two registries hold the same strategy and the same set of filters for each task, in whatever
order and however often. -/
structure SameSets (r r' : Registry) : Prop where
  strategy : ∀ task, r.strategy task = r'.strategy task
  mem_iff : ∀ task c, c ∈ (r.filters task).getD [] ↔ c ∈ (r'.filters task).getD []

namespace SameSets

variable {r r' : Registry}

theorem enter (h : r.SameSets r') (t : String) (b : Batch) :
    (r.enter t b).SameSets (r'.enter t b) where
  strategy task := by simp only [strategy_enter,h.strategy]
  mem_iff task c := by simp only [getD_filters_enter,List.mem_append,h.mem_iff]

theorem clear (h : r.SameSets r') (t : String) : (r.clear t).SameSets (r'.clear t) where
  strategy task := by simp only [strategy_clear,h.strategy]
  mem_iff task c := by
    simp only [filters_clear]
    split_ifs
    · rfl
    · exact h.mem_iff task c

theorem next (h : r.SameSets r') (c : Registration) : (r.next c).SameSets (r'.next c) :=
  next_both (fun _ _ t b h => h.enter t b) (fun _ _ t h => h.clear t) h c

theorem run (h : r.SameSets r') (cs : List Registration) : (r.run cs).SameSets (r'.run cs) := by
  induction cs generalizing r r' with
  | nil => exact h
  | cons c cs ih => exact ih (h.next c)

theorem assign? (h : r.SameSets r') (m : Manager) (t : Task) : m.assign? r t = m.assign? r' t := by
  have hopen (e : Entry) : m.isOpen r t.name e = m.isOpen r' t.name e := by
    rw [m.isOpen_eq,m.isOpen_eq]
    exact admits_congr _ (h.mem_iff t.name)
  have hsuits : m.suits r t = m.suits r' t := by
    funext e
    rw [Manager.suits,Manager.suits,hopen]
  have hstrategy : m.strategyFor r t.name = m.strategyFor r' t.name := by
    rw [Manager.strategyFor,Manager.strategyFor,h.strategy]
  simp only [Manager.assign?,hsuits,hstrategy]

end SameSets
end Registry

/-- Two moments that differ in nothing but the order in which filters are held, and in how often. -/
structure Moment.SameButOrder (m m' : Moment) : Prop where
  answer : m.report.answer = m'.report.answer
  manager : m.left.manager = m'.left.manager
  registry : m.left.registry.SameSets m'.left.registry

theorem Moment.sameButOrder {r r' : Registry} (h : r.SameSets r') (m : Manager) (c : Call) :
    Moment.SameButOrder ⟨⟨r,m⟩,c⟩ ⟨⟨r',m⟩,c⟩ := by
  have hregistry : (Moment.mk ⟨r,m⟩ c).left.registry.SameSets (Moment.mk ⟨r',m⟩ c).left.registry := by
    simp only [left,Allocator.step_registry]
    exact h.run _
  cases c with
  | offers os => exact ⟨rfl,rfl,hregistry⟩
  | register t fs =>
    refine ⟨?_,?_,hregistry⟩ <;> simp only [report,left,Allocator.step] <;>
      cases Batch.ofFilters t.name fs <;> rfl
  | clear t => exact ⟨rfl,rfl,hregistry⟩
  | assign t =>
    refine ⟨?_,?_,hregistry⟩ <;> simp only [report,left,Allocator.step,h.assign? m t] <;>
      cases m.assign? r' t <;> rfl

/-- The order in which filters were registered makes no difference, nor does how often they were: two
managers with the same pool over registries with the same sets answer every call alike, and their
pools stay the same. -/
theorem registration_order_immaterial {r r' : Registry} (h : r.SameSets r') (m : Manager)
    (cs : List Call) :
    List.Forall₂ Moment.SameButOrder ((Allocator.mk r m).moments cs)
      ((Allocator.mk r' m).moments cs) := by
  let Related (a a' : Allocator) : Prop := a.manager = a'.manager ∧ a.registry.SameSets a'.registry
  have hstart : Related ⟨r,m⟩ ⟨r',m⟩ := ⟨rfl,h⟩
  refine Allocator.forall₂_moments (C := Eq) hstart (List.forall₂_refl cs) ?_
  rintro ⟨r,m⟩ ⟨r',m'⟩ c _ ⟨rfl,hr⟩ rfl
  have hsame := Moment.sameButOrder hr m c
  exact ⟨hsame,hsame.manager,hsame.registry⟩

theorem registration_order_immaterial_two_orders :
    let gpu : Constraint := ⟨.text,["gpu"]⟩
    let four : Constraint := ⟨.scalar,["4"]⟩
    let r := (Registry.empty.enter "t1" ⟨[gpu],some .mux⟩).enter "t1" ⟨[four],none⟩
    let r' := (Registry.empty.enter "t1" ⟨[four],none⟩).enter "t1" ⟨[gpu,four,gpu],some .mux⟩
    let m := Manager.ofConfig { allocator := { filterMode := .full } }
    let task := Task.named "t1" [.cpus 1,.mem 512]
    let offer (attributes : List Attribute) : Offer :=
      { id := "o1", resources := [.cpus 2,.mem 4096], attributes }
    let cs : List Call := [.offers [offer [],offer [.scalar "size" 4],offer [.text "board" "GPU"]],
      .assign task,.register task [⟨"ranges",["7"]⟩],.assign task,.assign task,.clear task,
      .assign task]
    r.SameSets r' ∧ r.filters "t1" ≠ r'.filters "t1" ∧
      ((Allocator.mk r m).run cs).1.filterMap Report.given? = [1,1,2,0] ∧
      List.Forall₂ Moment.SameButOrder ((Allocator.mk r m).moments cs)
        ((Allocator.mk r' m).moments cs) := by
  intro gpu four r r' m task offer cs
  have hr : r.SameSets r' := by
    constructor
    · intro t
      simp only [r,r',Registry.strategy_enter]
      split_ifs <;> rfl
    · intro t c
      simp only [r,r',Registry.getD_filters_enter,List.mem_append]
      split_ifs
      · simp only [List.mem_cons]
        tauto
      · rfl
  exact ⟨hr,by decide +kernel,by decide +kernel,registration_order_immaterial hr m cs⟩

end OfferAllocation
