import Mathlib.Data.List.DropRight
import OfferAllocation.Proofs.Store
import OfferAllocation.Session

/-! Registries and the calls that change them. What a registry holds for a task can be read off the
calls that took effect: it is what their filters ask for, from the last time on that the task was
cleared. -/
namespace OfferAllocation

/-- What follows the last element with a property. -/
def sinceLast {α : Type} (p : α → Bool) (l : List α) : List α := l.rtakeWhile fun x => !p x

theorem sinceLast_concat {α : Type} (p : α → Bool) (l : List α) (x : α) :
    sinceLast p (l ++ [x]) = if p x then [] else sinceLast p l ++ [x] := by
  by_cases hx : p x = true
  · rw [if_pos hx,sinceLast,List.rtakeWhile_concat_neg _ _ _ (by simp [hx])]
  · rw [if_neg hx,sinceLast,List.rtakeWhile_concat_pos _ _ _ (by simp [hx])]
    rfl

namespace Filter

/-- The constraint that a filter of one of the attribute kinds asks for. -/
def constraint? (f : Filter) : Option Constraint :=
  (FilterKind.ofName? f.kind).map fun kind => ⟨kind,f.values⟩

def namesStrategy (f : Filter) : Bool := Text.sameAscii f.kind "strategy"

/-- The strategy that a filter of the kind `strategy` names by its first value. -/
def strategy? (f : Filter) : Option Strategy :=
  if f.namesStrategy then f.values.head?.map Strategy.ofName else none

/-- The kind of a strategy is none of the attribute kinds. -/
theorem constraint?_of_namesStrategy {f : Filter} (h : f.namesStrategy = true) :
    f.constraint? = none := by
  have hkind : Text.foldAscii f.kind = Text.foldAscii "strategy" := Text.sameAscii_iff.mp h
  have hnone : FilterKind.ofName? f.kind = none := by
    simp only [FilterKind.ofName?,Text.sameAscii,hkind]
    decide +kernel
  simp [constraint?,hnone]

end Filter

theorem Directive.ofFilter_ok {task : String} {f : Filter} {d : Directive}
    (h : Directive.ofFilter task f = .ok d) :
    d.constraint? = f.constraint? ∧ d.strategy? = f.strategy? := by
  unfold Directive.ofFilter at h
  by_cases hs : Text.sameAscii f.kind "strategy" = true
  · rw [if_pos hs] at h
    rw [Filter.constraint?_of_namesStrategy hs]
    cases hv : f.values with
    | nil => simp [hv] at h
    | cons v vs =>
      simp only [hv,Except.ok.injEq] at h
      subst h
      simp [constraint?,strategy?,Filter.strategy?,Filter.namesStrategy,hs,hv]
  · rw [if_neg hs] at h
    have hf : f.strategy? = none := by simp [Filter.strategy?,Filter.namesStrategy,hs]
    cases hk : FilterKind.ofName? f.kind with
    | none => simp [hk] at h
    | some kind =>
      simp only [hk,Except.ok.injEq] at h
      subst h
      simp [constraint?,strategy?,Filter.constraint?,hk,hf]

theorem Directive.mapM_ofFilter_ok {task : String} {fs : List Filter} {ds : List Directive}
    (h : fs.mapM (Directive.ofFilter task) = .ok ds) :
    ds.filterMap Directive.constraint? = fs.filterMap Filter.constraint? ∧
      ds.filterMap Directive.strategy? = fs.filterMap Filter.strategy? := by
  induction fs generalizing ds with
  | nil =>
    obtain rfl : [] = ds := Except.ok.inj h
    exact ⟨rfl,rfl⟩
  | cons f fs ih =>
    rw [List.mapM_cons] at h
    cases hd : Directive.ofFilter task f with
    | error e => simp [hd,bind,Except.bind] at h
    | ok d =>
      cases hds : fs.mapM (Directive.ofFilter task) with
      | error e => simp [hd,hds,bind,Except.bind] at h
      | ok ds' =>
        simp only [hd,hds,bind,Except.bind,pure,Except.pure,Except.ok.injEq] at h
        subst h
        obtain ⟨hc,hs⟩ := Directive.ofFilter_ok hd
        obtain ⟨hcs,hss⟩ := ih hds
        simp only [List.filterMap_cons,hc,hs,hcs,hss,and_self]

/-- A batch in order holds what its filters ask for. -/
theorem Batch.ofFilters_ok {task : String} {fs : List Filter} {b : Batch}
    (h : Batch.ofFilters task fs = .ok b) :
    b.constraints = fs.filterMap Filter.constraint? ∧
      b.strategy = (fs.filterMap Filter.strategy?).getLast? := by
  cases hds : fs.mapM (Directive.ofFilter task) with
  | error e => simp [Batch.ofFilters,hds,bind,Except.bind] at h
  | ok ds =>
    simp only [Batch.ofFilters,hds,bind,Except.bind,pure,Except.pure,Except.ok.injEq] at h
    subst h
    obtain ⟨hc,hs⟩ := Directive.mapM_ofFilter_ok hds
    exact ⟨hc,by rw [hs]⟩

namespace Registration

/-- The name of the task that is registered or cleared. -/
def task : Registration → String
  | .add t _ => t
  | .clear t => t

/-- The filters that a call brings for a task. -/
def filtersFor (task : String) : Registration → List Filter
  | .add t fs => if t = task then fs else []
  | .clear _ => []

end Registration

namespace Registry

/-- The calls of a sequence that take effect. -/
def effective (r : Registry) : List Registration → List Registration
  | [] => []
  | c :: cs =>
    match r.step c with
    | .ok r' => c :: r'.effective cs
    | .error _ => r.effective cs

section Calls

variable (r : Registry) (t task : String) (b : Batch)

theorem filters_enter : (r.enter t b).filters task =
    if t = task ∧ b.constraints ≠ [] then some ((r.filters task).getD [] ++ b.constraints)
    else r.filters task := by
  cases hb : b.constraints with
  | nil => simp [enter,filters,hb]
  | cons c cs =>
    simp only [enter,filters,hb,List.isEmpty_cons,Bool.false_eq_true,if_false,Store.get?_insert]
    by_cases ht : t = task <;> simp [ht]

theorem getD_filters_enter : ((r.enter t b).filters task).getD [] =
    (r.filters task).getD [] ++ if t = task then b.constraints else [] := by
  rw [filters_enter]
  by_cases ht : t = task <;> by_cases hb : b.constraints = [] <;> simp [ht,hb]

theorem strategy_enter : (r.enter t b).strategy task =
    if t = task then b.strategy.or (r.strategy task) else r.strategy task := by
  cases hb : b.strategy with
  | none => simp [enter,strategy,hb]
  | some s =>
    simp only [enter,strategy,hb,Store.get?_insert]
    by_cases ht : t = task <;> simp [ht]

theorem filters_clear : (r.clear t).filters task = if t = task then none else r.filters task :=
  Store.get?_erase _ _ _

theorem strategy_clear : (r.clear t).strategy task = if t = task then none else r.strategy task :=
  Store.get?_erase _ _ _

end Calls

/-- Every call keeps what entering a batch and clearing a task keep between two registries: a batch is
found in order without a look at the registry. -/
theorem next_both {R : Registry → Registry → Prop}
    (henter : ∀ r r' t b, R r r' → R (r.enter t b) (r'.enter t b))
    (hclear : ∀ r r' t, R r r' → R (r.clear t) (r'.clear t)) {r r' : Registry} (h : R r r')
    (c : Registration) : R (r.next c) (r'.next c) := by
  cases c with
  | add t fs =>
    cases hb : Batch.ofFilters t fs with
    | error e => simpa [next,step,hb,Except.map] using h
    | ok b => simpa [next,step,hb,Except.map] using henter _ _ t b h
  | clear t => exact hclear _ _ t h

/-- What is held for a task is what the filters `fs` ask for: their constraints in order, unless
there are none, and the last strategy that they name. -/
structure Mirrors (r : Registry) (task : String) (fs : List Filter) : Prop where
  filters : r.filters task =
    if fs.filterMap Filter.constraint? = [] then none else some (fs.filterMap Filter.constraint?)
  strategy : r.strategy task = (fs.filterMap Filter.strategy?).getLast?

theorem mirrors_empty (task : String) : empty.Mirrors task [] := ⟨rfl,rfl⟩

namespace Mirrors

variable {r r' : Registry} {task : String} {fs : List Filter}

theorem getD_filters (h : r.Mirrors task fs) :
    (r.filters task).getD [] = fs.filterMap Filter.constraint? := by
  rw [h.filters]
  split_ifs with hnil <;> simp [hnil]

theorem enter (h : r.Mirrors task fs) {gs : List Filter} {b : Batch}
    (hb : Batch.ofFilters task gs = .ok b) : (r.enter task b).Mirrors task (fs ++ gs) := by
  obtain ⟨hc,hs⟩ := Batch.ofFilters_ok hb
  constructor
  · rw [filters_enter,h.getD_filters,h.filters,hc,List.filterMap_append]
    by_cases hg : gs.filterMap Filter.constraint? = [] <;> simp [hg]
  · rw [strategy_enter,if_pos rfl,h.strategy,hs,List.filterMap_append,List.getLast?_append]

theorem step {c : Registration} (h : r.Mirrors task fs) (hc : r.step c = .ok r') :
    r'.Mirrors task (if c = .clear task then [] else fs ++ c.filtersFor task) := by
  cases c with
  | add t gs =>
    obtain ⟨b,hb,rfl⟩ : ∃ b, Batch.ofFilters t gs = .ok b ∧ r.enter t b = r' := by
      cases hb : Batch.ofFilters t gs with
      | error e => simp [Registry.step,hb,Except.map] at hc
      | ok b => exact ⟨b,rfl,by simpa [Registry.step,hb,Except.map] using hc⟩
    by_cases ht : t = task
    · subst ht
      simpa [Registration.filtersFor] using h.enter hb
    · simp only [reduceCtorEq,if_false,Registration.filtersFor,ht,List.append_nil]
      exact ⟨by simp [filters_enter,ht,h.filters],by simp [strategy_enter,ht,h.strategy]⟩
  | clear t =>
    obtain rfl : r.clear t = r' := Except.ok.inj hc
    by_cases ht : t = task
    · subst ht
      rw [if_pos rfl]
      exact ⟨by simp [filters_clear],by simp [strategy_clear]⟩
    · simp only [Registration.clear.injEq,ht,if_false,Registration.filtersFor,List.append_nil]
      exact ⟨by simp [filters_clear,ht,h.filters],by simp [strategy_clear,ht,h.strategy]⟩

end Mirrors
end Registry

/-- The filters that were registered for a task since it was last cleared, in order. -/
def standing (task : String) (cs : List Registration) : List Filter :=
  (sinceLast (· = .clear task) cs).flatMap (Registration.filtersFor task)

theorem standing_concat (task : String) (cs : List Registration) (c : Registration) :
    standing task (cs ++ [c]) =
      if c = .clear task then [] else standing task cs ++ c.filtersFor task := by
  by_cases hc : c = .clear task <;> simp [standing,sinceLast_concat,hc]

namespace Registry

variable {r : Registry} {task : String}

theorem Mirrors.run {before : List Registration} (h : r.Mirrors task (standing task before))
    (cs : List Registration) :
    (r.run cs).Mirrors task (standing task (before ++ r.effective cs)) := by
  induction cs generalizing r before with
  | nil => simpa [Registry.run,effective] using h
  | cons c cs ih =>
    cases hc : r.step c with
    | error e => simpa [Registry.run,effective,next,hc] using ih h
    | ok r' =>
      have hstep := h.step hc
      rw [← standing_concat] at hstep
      simpa [Registry.run,effective,next,hc] using ih hstep

/-- Nothing is lost with the calls that are refused. -/
theorem run_effective (r : Registry) (cs : List Registration) : r.run (r.effective cs) = r.run cs := by
  induction cs generalizing r with
  | nil => rfl
  | cons c cs ih =>
    cases hc : r.step c with
    | error e => simpa [run,effective,next,hc] using ih r
    | ok r' => simpa [run,effective,next,hc] using ih r'

/-- Two registries hold the same for a task. -/
structure AgreeOn (task : String) (r r' : Registry) : Prop where
  filters : r.filters task = r'.filters task
  strategy : r.strategy task = r'.strategy task

namespace AgreeOn

variable {r' : Registry} {c : Registration}

theorem enter (h : AgreeOn task r r') (t : String) (b : Batch) :
    AgreeOn task (r.enter t b) (r'.enter t b) :=
  ⟨by simp only [filters_enter,h.filters],by simp only [strategy_enter,h.strategy]⟩

theorem clear (h : AgreeOn task r r') (t : String) : AgreeOn task (r.clear t) (r'.clear t) :=
  ⟨by simp only [filters_clear,h.filters],by simp only [strategy_clear,h.strategy]⟩

theorem next (h : AgreeOn task r r') (c : Registration) : AgreeOn task (r.next c) (r'.next c) :=
  next_both (fun _ _ t b h => h.enter t b) (fun _ _ t h => h.clear t) h c

/-- A call for another task leaves what is held for a task as it is. -/
theorem next_of_ne (h : AgreeOn task r r') (hc : c.task ≠ task) : AgreeOn task (r.next c) r' := by
  cases c with
  | add t fs =>
    have ht : t ≠ task := hc
    cases hb : Batch.ofFilters t fs with
    | error e => simpa [Registry.next,Registry.step,hb,Except.map] using h
    | ok b =>
      simp only [Registry.next,Registry.step,hb,Except.map]
      exact ⟨by simp [filters_enter,ht,h.filters],by simp [strategy_enter,ht,h.strategy]⟩
  | clear t =>
    have ht : t ≠ task := hc
    exact ⟨by simp [Registry.next,Registry.step,filters_clear,ht,h.filters],
      by simp [Registry.next,Registry.step,strategy_clear,ht,h.strategy]⟩

/-- What is held for a task depends on the calls for that task alone. -/
theorem run_filter (h : AgreeOn task r r') (cs : List Registration) :
    AgreeOn task (r.run cs) (r'.run (cs.filter fun c => c.task = task)) := by
  induction cs generalizing r r' with
  | nil => exact h
  | cons c cs ih =>
    by_cases hc : c.task = task
    · simpa [run,hc] using ih (h.next c)
    · simpa [run,hc] using ih (h.next_of_ne hc)

end AgreeOn
end Registry

/-- After any calls, a registry holds for each task what the calls that took effect ask for since
the task was last cleared; refused calls and those for other tasks make no difference, and the counts
are those of the tasks for which something is held. -/
theorem registry_mirrors_calls (cs : List Registration) :
    let r := Registry.empty.run cs
    let calls := Registry.empty.effective cs
    (∀ task, r.Mirrors task (standing task calls)) ∧ Registry.empty.run calls = r ∧
      (∀ task, r.AgreeOn task (Registry.empty.run (cs.filter fun c => c.task = task))) ∧
      {task | r.filters task ≠ none}.encard = r.counts.1 ∧
      {task | r.strategy task ≠ none}.encard = r.counts.2 := by
  intro r calls
  refine ⟨fun task => ?_,Registry.run_effective _ cs,fun task => ?_,?_,?_⟩
  · have hempty : Registry.empty.Mirrors task (standing task []) := Registry.mirrors_empty task
    exact hempty.run cs
  · exact Registry.AgreeOn.run_filter ⟨rfl,rfl⟩ cs
  · exact r.lists.encard_bound
  · exact r.strategies.encard_bound

end OfferAllocation
