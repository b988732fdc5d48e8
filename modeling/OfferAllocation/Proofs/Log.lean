import OfferAllocation.Proofs.FirstFit
import OfferAllocation.Proofs.Session

/-! The log of a session. Each call that takes effect logs one event, and whoever has read all events
so far knows how many offers stand in each pool and what is held for each task. -/
namespace OfferAllocation

namespace Event

/-- The size of the batch that was received. -/
def received? : Event → Option Nat
  | .received k => some k
  | _ => none

/-- An offer was assigned and let go. -/
def letsGo : Event → Bool
  | .assigned _ _ _ retained => !retained
  | _ => false

def clears (task : String) : Event → Bool
  | .cleared t _ _ => t = task
  | _ => false

/-- How many filters were registered for a task. -/
def filtersFor (task : String) : Event → Nat
  | .registered t k _ => if t = task then k else 0
  | _ => 0

/-- The strategy that was registered for a task, if any was. -/
def strategyFor (task : String) : Event → Option Strategy
  | .registered t _ s => if t = task then s else none
  | _ => none

/-- The event is of the kind that a call logs, and names the task of the call. -/
def Tells : Event → Call → Prop
  | .received k,.offers os => k = os.length
  | .registered t _ _,.register task _ => t = task.name
  | .cleared t _ _,.clear task => t = task.name
  | .assigned t _ _ _,.assign task => t = task.name
  | _,_ => False

end Event

/-! What events tell: of a pool by the events of its manager, of a task by those of all managers. -/

/-- The size of the last batch. -/
def receivedTold (es : List Event) : Nat := (es.filterMap Event.received?).getLast?.getD 0

/-- How many offers of the last batch were let go. -/
def goneTold (es : List Event) : Nat :=
  (sinceLast (fun e => e.received?.isSome) es).countP Event.letsGo

/-- How many filters were registered for a task since it was last cleared. -/
def filtersTold (task : String) (es : List Event) : Nat :=
  ((sinceLast (Event.clears task) es).map (Event.filtersFor task)).sum

/-- The last strategy that was registered for a task since it was last cleared. -/
def strategyTold (task : String) (es : List Event) : Option Strategy :=
  ((sinceLast (Event.clears task) es).filterMap (Event.strategyFor task)).getLast?

section Concat

variable (es : List Event) (e : Event) (task : String)

theorem receivedTold_concat :
    receivedTold (es ++ [e]) = e.received?.getD (receivedTold es) := by
  cases he : e.received? <;> simp [receivedTold,List.filterMap_append,he]

theorem goneTold_concat :
    goneTold (es ++ [e]) =
      if e.received?.isSome then 0 else goneTold es + if e.letsGo then 1 else 0 := by
  simp only [goneTold,sinceLast_concat]
  split_ifs <;> simp_all [List.countP_append]

theorem filtersTold_concat :
    filtersTold task (es ++ [e]) =
      if e.clears task then 0 else filtersTold task es + e.filtersFor task := by
  simp only [filtersTold,sinceLast_concat]
  split_ifs <;> simp

theorem strategyTold_concat :
    strategyTold task (es ++ [e]) =
      if e.clears task then none else (e.strategyFor task).or (strategyTold task es) := by
  simp only [strategyTold,sinceLast_concat]
  split_ifs
  · rfl
  · rw [List.filterMap_append,List.getLast?_append]
    cases hs : e.strategyFor task <;> simp [hs]

end Concat

/-- The events of its manager tell the size of a pool: that of the last batch, less the offers that
were let go since. -/
def Pool.ToldBy (p : Pool) (es : List Event) : Prop := p.size + goneTold es = receivedTold es

/-- The events tell how many filters a registry holds for each task, and which strategy. -/
structure Registry.ToldBy (r : Registry) (es : List Event) : Prop where
  filters : ∀ task, ((r.filters task).getD []).length = filtersTold task es
  strategy : ∀ task, r.strategy task = strategyTold task es
  nonempty : ∀ task, r.filters task ≠ some []

namespace Registry.ToldBy

variable {r : Registry} {es : List Event}

/-- An event that neither clears nor registers says nothing of what is held. -/
theorem silent (h : r.ToldBy es) {e : Event} (hclears : ∀ task, e.clears task = false)
    (hfilters : ∀ task, e.filtersFor task = 0) (hstrategy : ∀ task, e.strategyFor task = none) :
    r.ToldBy (es ++ [e]) where
  filters := by
    intro task
    simp [filtersTold_concat,hclears,hfilters,h.filters]
  strategy := by
    intro task
    simp [strategyTold_concat,hclears,hstrategy,h.strategy]
  nonempty := h.nonempty

theorem enter (h : r.ToldBy es) (t : String) (b : Batch) :
    (r.enter t b).ToldBy (es ++ [.registered t b.constraints.length b.strategy]) where
  filters := by
    intro task
    rw [getD_filters_enter,List.length_append,h.filters,filtersTold_concat]
    by_cases ht : t = task <;> simp [Event.clears,Event.filtersFor,ht]
  strategy := by
    intro task
    rw [strategy_enter,h.strategy,strategyTold_concat]
    by_cases ht : t = task <;> simp [Event.clears,Event.strategyFor,ht]
  nonempty := by
    intro task
    rw [filters_enter]
    split_ifs with hb
    · simp [hb.2]
    · exact h.nonempty task

theorem clear (h : r.ToldBy es) (t : String) (hadFilters hadStrategy : Bool) :
    (r.clear t).ToldBy (es ++ [.cleared t hadFilters hadStrategy]) where
  filters := by
    intro task
    rw [filters_clear,filtersTold_concat]
    by_cases ht : t = task <;> simp [Event.clears,Event.filtersFor,ht,h.filters]
  strategy := by
    intro task
    rw [strategy_clear,strategyTold_concat]
    by_cases ht : t = task <;> simp [Event.clears,Event.strategyFor,ht,h.strategy]
  nonempty := by
    intro task
    rw [filters_clear]
    split_ifs
    · simp
    · exact h.nonempty task

/-- Filters are held for a task if and only if some are told. -/
theorem isSome_filters_iff (h : r.ToldBy es) (task : String) :
    (r.filters task).isSome = true ↔ 0 < filtersTold task es := by
  rw [← h.filters]
  have hne := h.nonempty task
  cases hf : r.filters task with
  | none => simp
  | some cs =>
    have hcs : cs ≠ [] := by
      rintro rfl
      exact hne hf
    simp [List.length_pos_iff,hcs]

end Registry.ToldBy

namespace Allocator

variable {a : Allocator} {es : List Event}

theorem pool_toldBy_step (h : a.manager.pool.ToldBy es) (c : Call) :
    (a.step c).2.manager.pool.ToldBy (es ++ (a.step c).1.log) := by
  unfold Pool.ToldBy at h ⊢
  cases c with
  | offers os =>
    simp [step,Manager.receive,goneTold_concat,receivedTold_concat,Event.received?]
  | register t fs =>
    cases hb : Batch.ofFilters t.name fs with
    | error e => simpa [step,hb] using h
    | ok b =>
      simpa [step,hb,goneTold_concat,receivedTold_concat,Event.received?,Event.letsGo] using h
  | clear t =>
    simpa [step,goneTold_concat,receivedTold_concat,Event.received?,Event.letsGo] using h
  | assign t =>
    obtain hnone | ⟨i,e,hfirst⟩ := a.step_assign_cases t
    · simpa [step_assign_of_none hnone] using h
    · rw [step_assign_of_firstAt hfirst]
      have hdrop := Pool.drop_length hfirst.lt
      cases hkeep : a.keeps t ((Demand.ofTask t).take e) with
      | true =>
        simpa [hkeep,Pool.size,Pool.set,goneTold_concat,receivedTold_concat,Event.received?,
          Event.letsGo] using h
      | false =>
        simp only [Pool.size] at h
        simp only [hkeep,Pool.size,goneTold_concat,receivedTold_concat,Event.received?,Event.letsGo,
          withPool_pool,Option.isSome_none,Bool.false_eq_true,if_false,Bool.not_false,if_true,
          Option.getD_none]
        omega

theorem registry_toldBy_step (h : a.registry.ToldBy es) (c : Call) :
    (a.step c).2.registry.ToldBy (es ++ (a.step c).1.log) := by
  cases c with
  | offers os => exact h.silent (fun _ => rfl) (fun _ => rfl) fun _ => rfl
  | register t fs =>
    cases hb : Batch.ofFilters t.name fs with
    | error e => simpa [step,hb] using h
    | ok b => simpa [step,hb] using h.enter t.name b
  | clear t => exact h.clear t.name _ _
  | assign t =>
    obtain hnone | ⟨i,e,hfirst⟩ := a.step_assign_cases t
    · simpa [step_assign_of_none hnone] using h
    · rw [step_assign_of_firstAt hfirst]
      exact h.silent (fun _ => rfl) (fun _ => rfl) fun _ => rfl

end Allocator

/-- What a call logs, and what it leaves, when the events `es` have been logged before it. -/
structure Logged (es : List Event) (c : Call) (r : Report) (left : Manager) : Prop where
  refused : ∀ e, r.answer = .refused e → r.log = []
  effective : (∀ e, r.answer ≠ .refused e) → ∃ event, r.log = [event] ∧ event.Tells c
  cleared : ∀ task hadFilters hadStrategy, .cleared task hadFilters hadStrategy ∈ r.log →
    (hadFilters = true ↔ 0 < filtersTold task es) ∧
      (hadStrategy = true ↔ strategyTold task es ≠ none)
  retained : ∀ task offer strategy, .assigned task offer strategy true ∈ r.log →
    strategy = .mux ∧ ∃ e ∈ left.pool.entries, r.answer = .assigned e ∧ e.offer.id = offer

/-- A refusal logs nothing. -/
theorem Logged.of_refused (es : List Event) (c : Call) (e : ManagerError) (left : Manager) :
    Logged es c ⟨.refused e,[]⟩ left where
  refused := fun _ _ => rfl
  effective := fun h => absurd rfl (h e)
  cleared := by simp
  retained := by simp

theorem Allocator.logged {a : Allocator} {es : List Event} (h : a.registry.ToldBy es) (c : Call) :
    Logged es c (a.step c).1 (a.step c).2.manager := by
  cases c with
  | offers os => exact ⟨by simp [step],fun _ => ⟨_,rfl,rfl⟩,by simp [step],by simp [step]⟩
  | register t fs =>
    cases hb : Batch.ofFilters t.name fs with
    | error e =>
      simp only [step,hb]
      exact .of_refused _ _ _ _
    | ok b =>
      simp only [step,hb]
      exact ⟨by simp,fun _ => ⟨_,rfl,rfl⟩,by simp,by simp⟩
  | clear t =>
    refine ⟨by simp [step],fun _ => ⟨_,rfl,rfl⟩,?_,by simp [step]⟩
    intro task hadFilters hadStrategy hmem
    simp only [step,List.mem_singleton,Event.cleared.injEq] at hmem
    obtain ⟨rfl,rfl,rfl⟩ := hmem
    rw [← h.strategy]
    exact ⟨h.isSome_filters_iff t.name,Option.isSome_iff_ne_none⟩
  | assign t =>
    obtain hnone | ⟨i,e,hfirst⟩ := a.step_assign_cases t
    · rw [step_assign_of_none hnone]
      exact .of_refused _ _ _ _
    · rw [step_assign_of_firstAt hfirst]
      refine ⟨by simp,fun _ => ⟨_,rfl,rfl⟩,by simp,?_⟩
      intro task offer strategy hmem
      simp only [List.mem_singleton,Event.assigned.injEq] at hmem
      obtain ⟨rfl,rfl,rfl,hkeep⟩ := hmem
      refine ⟨(keeps_iff.mp hkeep.symm).1,(Demand.ofTask t).take e,?_,rfl,rfl⟩
      simp only [← hkeep,if_true,withPool_pool]
      exact List.mem_of_getElem? (List.getElem?_set_self hfirst.lt)

/-- The events of manager `n`. -/
def eventsOf (n : Nat) (log : List (Nat × Event)) : List Event :=
  (log.filter fun l => l.1 == n).map Prod.snd

theorem eventsOf_append (n k : Nat) (log : List (Nat × Event)) (es : List Event) :
    eventsOf k (log ++ es.map (n,·)) = eventsOf k log ++ if n = k then es else [] := by
  simp only [eventsOf,List.filter_append,List.map_append,List.filter_map,Function.comp_def,
    List.map_map]
  by_cases hn : n = k <;> simp [hn]

namespace Session

/-- What a turn logs, each event with the number of the manager that was called. -/
def logOf (s : Session) : Turn → List (Nat × Event)
  | .join _ => []
  | .call n c => ((s.step? n c).map fun (r,_) => r.log.map (n,·)).getD []

def log (s : Session) : List Turn → List (Nat × Event)
  | [] => []
  | t :: ts => s.logOf t ++ (s.next t).log ts

/-- The log tells the sizes of all pools, and what is held for each task. -/
structure ToldBy (s : Session) (log : List (Nat × Event)) : Prop where
  pool : ∀ n (m : Manager), s.managers[n]? = some m → m.pool.ToldBy (eventsOf n log)
  registry : s.registry.ToldBy (log.map Prod.snd)
  absent : ∀ n, s.managers[n]? = none → eventsOf n log = []

theorem toldBy_start (c : Config) : (start (.ofConfig c)).ToldBy [] where
  pool := by
    intro n m hm
    obtain rfl : Manager.ofConfig c = m := by
      cases n with
      | zero => exact Option.some.inj hm
      | succ n => simp [start] at hm
    rfl
  registry := ⟨fun _ => rfl,fun _ => rfl,by simp [start,Registry.filters,Registry.empty]⟩
  absent := fun _ _ => rfl

section Steps

variable {s : Session} {log : List (Nat × Event)}

theorem ToldBy.join (h : s.ToldBy log) (c : Config) : (s.join (.ofConfig c)).ToldBy log where
  pool := by
    intro n m hm
    rw [Session.join,List.getElem?_append] at hm
    split_ifs at hm with hn
    · exact h.pool n m hm
    · rw [h.absent n (List.getElem?_eq_none (by omega))]
      obtain ⟨-,rfl⟩ := List.getElem?_eq_some_iff.mp hm
      simp only [List.getElem_singleton]
      rfl
  registry := h.registry
  absent := by
    intro n hn
    refine h.absent n (List.getElem?_eq_none ?_)
    simp only [Session.join,List.getElem?_eq_none_iff,List.length_append] at hn
    omega

theorem logOf_call {n : Nat} {c : Call} {m : Manager} (hm : s.managers[n]? = some m) :
    s.logOf (.call n c) = ((Allocator.mk s.registry m).step c).1.log.map (n,·) := by
  simp [logOf,step?_eq hm]

theorem ToldBy.next (h : s.ToldBy log) (t : Turn) : (s.next t).ToldBy (log ++ s.logOf t) := by
  cases t with
  | join c => simpa [logOf,Session.next] using h.join c
  | call n c =>
    cases hm : s.managers[n]? with
    | none => simpa [next_absent hm,logOf,step?_eq_none hm] using h
    | some m =>
      obtain ⟨hregistry,hmanagers⟩ := next_call (c := c) hm
      rw [logOf_call hm]
      refine ⟨fun k mgr hk => ?_,?_,fun k hk => ?_⟩
      · rw [eventsOf_append]
        rw [hmanagers,List.getElem?_set] at hk
        split_ifs at hk with hnk hlt
        · subst hnk
          obtain rfl := Option.some.inj hk
          simpa using Allocator.pool_toldBy_step (a := ⟨s.registry,m⟩) (h.pool n m hm) c
        · simpa [hnk] using h.pool k mgr hk
      · have hstep := Allocator.registry_toldBy_step (a := ⟨s.registry,m⟩) h.registry c
        rw [Allocator.step_registry] at hstep
        simpa [hregistry,Function.comp_def] using hstep
      · have hk' : s.managers[k]? = none := by simpa [hmanagers] using hk
        have hnk : n ≠ k := by
          rintro rfl
          simp [hm] at hk'
        rw [eventsOf_append,h.absent k hk',if_neg hnk]
        rfl

theorem ToldBy.run (h : s.ToldBy log) (ts : List Turn) :
    (s.run ts).ToldBy (log ++ s.log ts) := by
  induction ts generalizing s log with
  | nil => simpa [Session.run,Session.log] using h
  | cons t ts ih => simpa [Session.run,Session.log] using ih (h.next t)

end Steps
end Session

/-- In a session that starts with an empty registry, the log alone tells at every point how many
offers each manager has in its pool and what is held for each task, and each call adds to it what
`Logged` says. -/
theorem log_tells_session (c : Config) (ts : List Turn) :
    let start := Session.start (.ofConfig c)
    (start.run ts).ToldBy (start.log ts) ∧
      ∀ n call r s', (start.run ts).step? n call = some (r,s') →
        ∃ left, s'.managers[n]? = some left ∧
          Logged ((start.log ts).map Prod.snd) call r left := by
  intro start
  have htold : (start.run ts).ToldBy (start.log ts) := (Session.toldBy_start c).run ts
  refine ⟨htold,fun n call r s' hstep => ?_⟩
  cases hm : (start.run ts).managers[n]? with
  | none => simp [Session.step?_eq_none hm] at hstep
  | some m =>
    rw [Session.step?_eq hm] at hstep
    obtain ⟨rfl,rfl⟩ := Prod.mk.inj (Option.some.inj hstep)
    have hn := (List.getElem?_eq_some_iff.mp hm).1
    exact ⟨_,by simp [hn],Allocator.logged htold.registry call⟩

theorem log_tells_session_two :
    let task (name : String) (cpu mem : Float) := Task.named name [.cpus cpu,.mem mem]
    let offer (id : String) (cpu mem : Float) : Offer := { id, resources := [.cpus cpu,.mem mem] }
    let start := Session.start (.ofConfig {})
    let ts : List Turn := [.join {},.call 0 (.offers [offer "o1" 4 4096,offer "o2" 1 128]),
      .call 1 (.offers [offer "o3" 1 512]),
      .call 1 (.register (task "t1" 1 512) [⟨"strategy",["mux"]⟩,⟨"text",["rack","a"]⟩]),
      .call 0 (.register (task "t1" 1 512) [⟨"colour",["red"]⟩]),.call 0 (.assign (task "t1" 1 512)),
      .call 0 (.assign (task "t2" 1 128)),.call 1 (.assign (task "t2" 8 512))]
    let clear : Call := .clear (task "t1" 1 512)
    (start.log ts).map Prod.fst = [0,1,1,0] ∧ (start.run ts).ToldBy (start.log ts) ∧
      receivedTold (eventsOf 0 (start.log ts)) = 2 ∧ goneTold (eventsOf 0 (start.log ts)) = 1 ∧
      ∃ r s', (start.run ts).step? 0 clear = some (r,s') ∧ r.log = [.cleared "t1" true true] ∧
        ∃ left, s'.managers[0]? = some left ∧
          Logged ((start.log ts).map Prod.snd) clear r left := by
  intro task offer start ts clear
  obtain ⟨htold,hlogged⟩ := log_tells_session {} ts
  have hlog : ((start.run ts).step? 0 clear).map (fun out => out.1.log) =
      some [.cleared "t1" true true] := by
    decide +kernel
  obtain ⟨⟨r,s'⟩,hstep,hr⟩ := Option.map_eq_some_iff.mp hlog
  refine ⟨by decide +kernel,htold,by decide +kernel,by decide +kernel,r,s',hstep,hr,?_⟩
  exact hlogged 0 clear r s' hstep

end OfferAllocation
