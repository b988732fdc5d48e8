import Mathlib.Data.List.DropRight
import OfferAllocation.Proofs.FirstFit

/-! Histories. A run is taken apart into its moments: each call with the allocator that it found.
From the moments come the servings, which say what task was given what under which strategy. -/
namespace OfferAllocation

def Call.isIntake : Call → Bool
  | .offers _ => true
  | _ => false

/-- The number of the offer that an answer hands out. -/
def Report.given? (r : Report) : Option Nat :=
  match r.answer with
  | .assigned e => some e.position
  | _ => none

/-- A call of a run, with the allocator that it found. -/
structure Moment where
  found : Allocator
  call : Call

/-- A task that was given an offer: the entry as the task left it, and the strategy in force. -/
structure Serving where
  task : Task
  entry : Entry
  strategy : Strategy

/-- The offer could be shared further: the strategy allowed it, and something was left on both
axes. -/
def Serving.Shared (s : Serving) : Prop :=
  s.strategy = .mux ∧ (s.entry.cpu == 0) = false ∧ (s.entry.mem == 0) = false

instance : DecidablePred Serving.Shared := fun _ => inferInstanceAs (Decidable (_ ∧ _ ∧ _))

namespace Moment

def report (m : Moment) : Report := (m.found.step m.call).1

def left (m : Moment) : Allocator := (m.found.step m.call).2

/-- The strategy in force for the task of a call: the one that is registered at that moment, or else
that of the manager. -/
def strategy? (m : Moment) : Option Strategy :=
  match m.call with
  | .assign t => some ((m.found.registry.strategy t.name).getD m.found.manager.defaultStrategy)
  | _ => none

def serving? (m : Moment) : Option Serving :=
  match m.call,m.report.answer with
  | .assign t,.assigned e =>
    some ⟨t,e,(m.found.registry.strategy t.name).getD m.found.manager.defaultStrategy⟩
  | _,_ => none

end Moment

namespace Allocator

/-- The moments of a run. -/
def moments (a : Allocator) : List Call → List Moment
  | [] => []
  | c :: cs => ⟨a,c⟩ :: (a.step c).2.moments cs

end Allocator

/-- What is left of a history after the last intake in it. -/
def sinceIntake (ms : List Moment) : List Moment := ms.rtakeWhile fun m => !m.call.isIntake

def servings (ms : List Moment) : List Serving := ms.filterMap Moment.serving?

/-- The servings from the offer with a number, in order. -/
def servingsOf (n : Nat) (ms : List Moment) : List Serving :=
  (servings ms).filter fun s => s.entry.position == n

@[simp] theorem servingsOf_append (n : Nat) (ms ms' : List Moment) :
    servingsOf n (ms ++ ms') = servingsOf n ms ++ servingsOf n ms' := by
  simp [servingsOf,servings]

namespace Allocator

variable {a : Allocator}

theorem run_reports (a : Allocator) (cs : List Call) :
    (a.run cs).1 = (a.moments cs).map Moment.report := by
  induction cs generalizing a with
  | nil => rfl
  | cons c cs ih => simp [run,moments,Moment.report,ih]

theorem run_append (a : Allocator) (cs cs' : List Call) :
    (a.run (cs ++ cs')).2 = ((a.run cs).2.run cs').2 := by
  induction cs generalizing a with
  | nil => rfl
  | cons c cs ih => simp [run,ih]

theorem moments_append (a : Allocator) (cs cs' : List Call) :
    a.moments (cs ++ cs') = a.moments cs ++ (a.run cs).2.moments cs' := by
  induction cs generalizing a with
  | nil => rfl
  | cons c cs ih => simp [run,moments,ih]

theorem moments_call (a : Allocator) (cs : List Call) : (a.moments cs).map Moment.call = cs := by
  induction cs generalizing a with
  | nil => rfl
  | cons c cs ih => simp [moments,ih]

/-- Two runs go side by side if their calls do, and if each pair of calls keeps two allocators in a
relation. -/
theorem forall₂_moments {R : Allocator → Allocator → Prop} {C : Call → Call → Prop}
    {M : Moment → Moment → Prop} {a a' : Allocator} {cs cs' : List Call} (h : R a a')
    (hcs : List.Forall₂ C cs cs')
    (hstep : ∀ a a' c c', R a a' → C c c' → M ⟨a,c⟩ ⟨a',c'⟩ ∧ R (a.step c).2 (a'.step c').2) :
    List.Forall₂ M (a.moments cs) (a'.moments cs') := by
  induction hcs generalizing a a' with
  | nil => exact .nil
  | cons hc _ ih =>
    obtain ⟨hmoment,hleft⟩ := hstep _ _ _ _ h hc
    exact .cons hmoment (ih hleft)

theorem isIntake_of_mem_moments {cs : List Call} (h : ∀ c ∈ cs, c.isIntake = false) {m : Moment}
    (hm : m ∈ a.moments cs) : m.call.isIntake = false := by
  have hc : m.call ∈ (a.moments cs).map Moment.call := List.mem_map_of_mem hm
  rw [moments_call] at hc
  exact h _ hc

/-- Nothing is handed out but in a serving. -/
theorem run_given (a : Allocator) (cs : List Call) :
    (a.run cs).1.filterMap Report.given? =
      (servings (a.moments cs)).map fun s => s.entry.position := by
  rw [run_reports,servings,List.filterMap_map,List.map_filterMap]
  apply List.filterMap_congr
  rintro ⟨found,c⟩ -
  cases c with
  | offers os => rfl
  | register t fs =>
    simp only [Function.comp_apply,Moment.report,Moment.serving?,step]
    cases Batch.ofFilters t.name fs <;> rfl
  | clear t => rfl
  | assign t =>
    simp only [Function.comp_apply,Moment.report,Moment.serving?,step]
    cases found.manager.assign? found.registry t <;> rfl

theorem mem_given_iff {a : Allocator} {cs : List Call} {n : Nat} :
    n ∈ (a.run cs).1.filterMap Report.given? ↔ servingsOf n (a.moments cs) ≠ [] := by
  rw [run_given]
  simp [servingsOf]

end Allocator

/-- In a run there either was no intake or there was a last one. -/
theorem exists_last_intake (cs : List Call) :
    (∀ c ∈ cs, c.isIntake = false) ∨
      ∃ pre os post, cs = pre ++ .offers os :: post ∧ ∀ c ∈ post, c.isIntake = false := by
  induction cs with
  | nil => simp
  | cons c cs ih =>
    obtain hnone | ⟨pre,os,post,rfl,hpost⟩ := ih
    · cases c with
      | offers os => exact .inr ⟨[],os,cs,rfl,hnone⟩
      | register t fs => exact .inl (List.forall_mem_cons.mpr ⟨rfl,hnone⟩)
      | clear t => exact .inl (List.forall_mem_cons.mpr ⟨rfl,hnone⟩)
      | assign t => exact .inl (List.forall_mem_cons.mpr ⟨rfl,hnone⟩)
    · exact .inr ⟨c :: pre,os,post,rfl,hpost⟩

theorem sinceIntake_append {ms ms' : List Moment} {m : Moment} (hm : m.call.isIntake = true)
    (h : ∀ x ∈ ms', x.call.isIntake = false) : sinceIntake (ms ++ m :: ms') = ms' := by
  have hall : ∀ x ∈ ms'.reverse, (!x.call.isIntake) = true := by simpa using h
  simp [sinceIntake,List.rtakeWhile,List.takeWhile_append_of_pos hall,hm]

namespace Moment

theorem strategy?_of_serving? {m : Moment} {s : Serving} (h : m.serving? = some s) :
    m.strategy? = some s.strategy := by
  unfold serving? at h
  split at h
  · rename_i t e hc ha
    obtain rfl := Option.some.inj h
    simp [strategy?,hc]
  · cases h

/-- What happens at a moment that takes nothing in: either the pool stays as it is, or the first
entry that suits a task is given to it, and stays only if its offer can be shared further. -/
theorem within_cases (m : Moment) (h : m.call.isIntake = false) :
    (m.serving? = none ∧ m.left.manager.pool = m.found.manager.pool) ∨
      ∃ s i e, m.serving? = some s ∧ m.found.FirstAt s.task i e ∧
        s.entry = (Demand.ofTask s.task).take e ∧
        m.left.manager.pool =
          if s.Shared then m.found.manager.pool.set i s.entry else m.found.manager.pool.drop i := by
  obtain ⟨a,c⟩ := m
  cases c with
  | offers os => simp [Call.isIntake] at h
  | register t fs =>
    left
    simp only [serving?,left,Allocator.step]
    cases Batch.ofFilters t.name fs <;> simp
  | clear t => exact .inl ⟨rfl,rfl⟩
  | assign t =>
    obtain hnone | ⟨i,e,hfirst⟩ := a.step_assign_cases t
    · left
      simp [serving?,report,left,Allocator.step_assign_of_none hnone]
    · right
      refine ⟨⟨t,(Demand.ofTask t).take e,
        (a.registry.strategy t.name).getD a.manager.defaultStrategy⟩,i,e,?_,hfirst,rfl,?_⟩
      · simp [serving?,report,Allocator.step_assign_of_firstAt hfirst]
      · simp only [left,Allocator.step_assign_of_firstAt hfirst,Allocator.withPool_pool,
          Allocator.keeps_iff]
        rfl

end Moment
end OfferAllocation
