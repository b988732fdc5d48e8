import OfferAllocation.Proofs.Registry

/-! Sessions, turn by turn. Managers meet in the registry alone: what the caller of one of them gets
to see depends on the calls to that manager and on what is registered and cleared, whoever does it,
but not on the offers that others take in or assign. -/
namespace OfferAllocation

/-- A call as the registry meets it. -/
def Call.registration? : Call → Option Registration
  | .register t fs => some (.add t.name fs)
  | .clear t => some (.clear t.name)
  | _ => none

/-- The number of the manager, once for each offer that a call to it takes in. -/
def Call.intakes (n : Nat) : Call → List Nat
  | .offers os => List.replicate os.length n
  | _ => []

namespace Allocator

variable (a : Allocator) (c : Call)

/-- The registry goes through the registrations and clears, and nothing else changes it. -/
theorem step_registry : (a.step c).2.registry = a.registry.run c.registration?.toList := by
  cases c with
  | offers os => rfl
  | register t fs =>
    simp only [step,Call.registration?,Option.toList_some,Registry.run,List.foldl_cons,
      List.foldl_nil,Registry.next,Registry.step]
    cases Batch.ofFilters t.name fs <;> rfl
  | clear t => rfl
  | assign t =>
    simp only [step,Call.registration?,Option.toList_none,Registry.run,List.foldl_nil]
    cases a.manager.assign? a.registry t <;> rfl

variable {c}

theorem step_manager (h : c.registration?.isSome = true) : (a.step c).2.manager = a.manager := by
  cases c with
  | register t fs =>
    simp only [step]
    cases Batch.ofFilters t.name fs <;> rfl
  | clear t => rfl
  | offers os => simp [Call.registration?] at h
  | assign t => simp [Call.registration?] at h

/-- What is answered to a registration or a clear does not depend on the manager. -/
theorem step_report (r : Registry) (m m' : Manager) (h : c.registration?.isSome = true) :
    ((Allocator.mk r m).step c).1 = ((Allocator.mk r m').step c).1 := by
  cases c with
  | register t fs =>
    simp only [step]
    cases Batch.ofFilters t.name fs <;> rfl
  | clear t => rfl
  | offers os => simp [Call.registration?] at h
  | assign t => simp [Call.registration?] at h

end Allocator

/-- A task asks the registry for its own filters and its own strategy, by its name. -/
theorem Manager.assign?_congr (m : Manager) {r r' : Registry} {t t' : Task}
    (hname : t.name = t'.name) (hresources : t.resources = t'.resources)
    (h : r.AgreeOn t.name r') : m.assign? r t = m.assign? r' t' := by
  have hdemand : Demand.ofTask t = Demand.ofTask t' := by simp [Demand.ofTask,hresources]
  have hsuits : m.suits r t = m.suits r' t' := by
    funext e
    simp only [suits,isOpen,hdemand,h.filters,← hname]
  have hstrategy : m.strategyFor r t.name = m.strategyFor r' t'.name := by
    simp only [strategyFor,h.strategy,← hname]
  simp only [assign?,hsuits,hdemand,hstrategy]

/-- What happens in a session: a manager joins it, or a call is made to the manager with a number. -/
inductive Turn
  | join (c : Config)
  | call (n : Nat) (c : Call)

/-- A turn concerns a manager if it is a call to that manager, or one that the registry meets. -/
def Turn.concerns (m : Nat) : Turn → Bool
  | .join _ => true
  | .call n c => n == m || c.registration?.isSome

/-- What the caller of a manager gets to see by a call: what was given back, and the pool that was
left. -/
structure Sight where
  report : Report
  entries : List Entry
  hasResources : Bool
  declinable : List Entry

def Sight.of (r : Report) (m : Manager) : Sight :=
  ⟨r,m.pool.entries,m.hasResources,m.declinable⟩

namespace Session

/-- The session that a turn leaves. A call to a manager that is not there is no turn at all. -/
def next (s : Session) : Turn → Session
  | .join c => s.join (.ofConfig c)
  | .call n c => ((s.step? n c).map Prod.snd).getD s

def run (s : Session) (ts : List Turn) : Session := ts.foldl next s

/-- What the caller of manager `m` sees of a turn. -/
def sight? (s : Session) (m : Nat) : Turn → Option Sight
  | .join _ => none
  | .call n c =>
    if n = m then (s.step? n c).bind fun (r,s') => s'.managers[m]?.map (Sight.of r) else none

/-- All that the caller of manager `m` sees in the course of a session. -/
def sights (s : Session) (m : Nat) : List Turn → List Sight
  | [] => []
  | t :: ts => (s.sight? m t).toList ++ (s.next t).sights m ts

/-- Two sessions are the same for the caller of manager `m`. -/
structure SameFor (m : Nat) (s s' : Session) : Prop where
  registry : s.registry = s'.registry
  size : s.managers.length = s'.managers.length
  manager : s.managers[m]? = s'.managers[m]?

section Turns

variable {s s' : Session} {m n : Nat} {c : Call}

theorem step?_eq {mgr : Manager} (h : s.managers[n]? = some mgr) :
    s.step? n c = some (((Allocator.mk s.registry mgr).step c).1,
      { registry := s.registry.run c.registration?.toList
        managers := s.managers.set n ((Allocator.mk s.registry mgr).step c).2.manager
        intakes := s.intakes ++ c.intakes n }) := by
  simp only [step?,h,Option.map_some,Allocator.step_registry]
  cases c <;> rfl

theorem step?_eq_none (h : s.managers[n]? = none) : s.step? n c = none := by simp [step?,h]

/-- A call changes the registry by what it registers or clears, and its own manager. -/
theorem next_call {mgr : Manager} (h : s.managers[n]? = some mgr) :
    (s.next (.call n c)).registry = s.registry.run c.registration?.toList ∧
      (s.next (.call n c)).managers =
        s.managers.set n ((Allocator.mk s.registry mgr).step c).2.manager := by
  simp [next,step?_eq h]

theorem next_absent (h : s.managers[n]? = none) : s.next (.call n c) = s := by
  simp [next,step?_eq_none h]

/-- A turn that does not concern a manager is as good as none. -/
theorem next_of_not_concerns {t : Turn} (h : t.concerns m = false) : SameFor m (s.next t) s := by
  cases t with
  | join c => simp [Turn.concerns] at h
  | call n c =>
    simp only [Turn.concerns,Bool.or_eq_false_iff,beq_eq_false_iff_ne,
      Option.isSome_eq_false_iff,Option.isNone_iff_eq_none] at h
    obtain ⟨hn,hc⟩ := h
    cases hmgr : s.managers[n]? with
    | none =>
      rw [next_absent hmgr]
      exact ⟨rfl,rfl,rfl⟩
    | some mgr =>
      obtain ⟨hr,hm⟩ := next_call (c := c) hmgr
      refine ⟨?_,by simp [hm],?_⟩
      · rw [hr,hc]
        rfl
      · rw [hm,List.getElem?_set_ne hn]

theorem sight?_of_not_concerns {t : Turn} (h : t.concerns m = false) : s.sight? m t = none := by
  cases t with
  | join c => rfl
  | call n c =>
    have hn : n ≠ m := by
      rintro rfl
      simp [Turn.concerns] at h
    simp [sight?,hn]

namespace SameFor

theorem join (h : SameFor m s s') (c : Config) :
    SameFor m (s.next (.join c)) (s'.next (.join c)) where
  registry := h.registry
  size := by simp [Session.next,Session.join,h.size]
  manager := by
    simp only [Session.next,Session.join,List.getElem?_append,h.size,h.manager]

theorem isNone_iff (h : SameFor m s s') : s.managers[n]? = none ↔ s'.managers[n]? = none := by
  simp [h.size]

theorem next (h : SameFor m s s') (t : Turn) : SameFor m (s.next t) (s'.next t) := by
  cases t with
  | join c => exact h.join c
  | call n c =>
    cases hmgr : s.managers[n]? with
    | none => rwa [next_absent hmgr,next_absent (h.isNone_iff.mp hmgr)]
    | some mgr =>
      obtain ⟨mgr',hmgr'⟩ : ∃ mgr', s'.managers[n]? = some mgr' := by
        rw [← Option.ne_none_iff_exists',Ne,← h.isNone_iff,hmgr]
        simp
      obtain ⟨hr,hm⟩ := next_call (c := c) hmgr
      obtain ⟨hr',hm'⟩ := next_call (c := c) hmgr'
      refine ⟨by rw [hr,hr',h.registry],by simp [hm,hm',h.size],?_⟩
      rw [hm,hm']
      by_cases hn : n = m
      · subst hn
        obtain rfl : mgr = mgr' := by
          rw [h.manager,hmgr'] at hmgr
          exact (Option.some.inj hmgr).symm
        simp only [List.getElem?_set,if_true,h.size,h.registry]
      · rw [List.getElem?_set_ne hn,List.getElem?_set_ne hn,h.manager]

theorem sight? (h : SameFor m s s') (t : Turn) : s.sight? m t = s'.sight? m t := by
  cases t with
  | join c => rfl
  | call n c =>
    by_cases hn : n = m
    · subst hn
      cases hmgr : s.managers[n]? with
      | none =>
        have hmgr' := h.isNone_iff.mp hmgr
        simp [Session.sight?,step?_eq_none hmgr,step?_eq_none hmgr']
      | some mgr =>
        have hmgr' := h.manager ▸ hmgr
        simp [Session.sight?,step?_eq hmgr,step?_eq hmgr',List.getElem?_set,h.size,h.registry]
    · simp [Session.sight?,hn]

/-- Turns that do not concern a manager may be left out. -/
theorem sights_filter (h : SameFor m s s') (ts : List Turn) :
    s.sights m ts = s'.sights m (ts.filter (Turn.concerns m)) := by
  induction ts generalizing s s' with
  | nil => rfl
  | cons t ts ih =>
    cases ht : t.concerns m with
    | true => simp [sights,ht,h.sight? t,ih (h.next t)]
    | false =>
      have hnext := next_of_not_concerns (s := s) ht
      have hsame : SameFor m (s.next t) s' :=
        ⟨hnext.registry.trans h.registry,hnext.size.trans h.size,hnext.manager.trans h.manager⟩
      simp [sights,ht,sight?_of_not_concerns ht,ih hsame]

end SameFor

/-- It does not matter through which manager something is registered or cleared. -/
theorem step?_registration {n' : Nat} (hc : c.registration?.isSome = true)
    (hn : n < s.managers.length) (hn' : n' < s.managers.length) : s.step? n c = s.step? n' c := by
  have hset {n : Nat} (hn : n < s.managers.length) :
      s.managers.set n ((Allocator.mk s.registry s.managers[n]).step c).2.manager = s.managers := by
    rw [Allocator.step_manager _ hc,List.set_getElem_self]
  rw [step?_eq (List.getElem?_eq_getElem hn),step?_eq (List.getElem?_eq_getElem hn'),hset hn,
    hset hn',Allocator.step_report _ _ s.managers[n'] hc]
  cases c with
  | register t fs => rfl
  | clear t => rfl
  | offers os => simp [Call.registration?] at hc
  | assign t => simp [Call.registration?] at hc

end Turns
end Session

/-- The caller of a manager sees the same whatever offers the other managers take in or assign. What
is registered or cleared has the same effect through any manager, and a call for a task depends on
what is held for its name alone. -/
theorem managers_apart (s : Session) (m : Nat) :
    (∀ ts ts', ts.filter (Turn.concerns m) = ts'.filter (Turn.concerns m) →
      s.sights m ts = s.sights m ts') ∧
    (∀ n n' c, c.registration?.isSome = true → n < s.managers.length → n' < s.managers.length →
      s.step? n c = s.step? n' c) ∧
    ∀ (mgr : Manager) (r r' : Registry) (t t' : Task), t.name = t'.name →
      t.resources = t'.resources → r.AgreeOn t.name r' →
      let out := (Allocator.mk r mgr).step (.assign t)
      let out' := (Allocator.mk r' mgr).step (.assign t')
      out.1 = out'.1 ∧ out.2.manager = out'.2.manager := by
  refine ⟨fun ts ts' hts => ?_,fun n n' c hc hn hn' => Session.step?_registration hc hn hn',?_⟩
  · have hsame : Session.SameFor m s s := ⟨rfl,rfl,rfl⟩
    rw [hsame.sights_filter ts,hts,← hsame.sights_filter ts']
  · intro mgr r r' t t' hname hresources hagree
    simp only [Allocator.step,mgr.assign?_congr hname hresources hagree,hname]
    cases mgr.assign? r' t' <;> exact ⟨rfl,rfl⟩

theorem managers_apart_two :
    let task (name : String) (cpu mem : Float) := Task.named name [.cpus cpu,.mem mem]
    let offer (id : String) (cpu mem : Float) : Offer := { id, resources := [.cpus cpu,.mem mem] }
    let mux : Call := .register (task "t1" 1 512) [⟨"strategy",["mux"]⟩]
    let s := (Session.start (.ofConfig {})).join (.ofConfig {})
    let ts : List Turn := [.call 0 (.offers [offer "o1" 4 4096]),.call 1 (.offers [offer "o1" 1 512]),
      .call 1 mux,.call 1 (.assign (task "t1" 1 512)),.call 0 (.assign (task "t1" 1 512))]
    let ts' : List Turn := [.call 0 (.offers [offer "o1" 4 4096]),.call 1 mux,
      .call 1 (.assign (task "t2" 8 512)),.call 0 (.assign (task "t1" 1 512))]
    ts.filter (Turn.concerns 0) = ts'.filter (Turn.concerns 0) ∧ s.sights 0 ts = s.sights 0 ts' ∧
      (s.sights 0 ts).map (fun v => v.entries.map Entry.cpu) = [[4],[3]] ∧
      mux.registration?.isSome = true ∧ s.step? 0 mux = s.step? 1 mux := by
  intro task offer mux s ts ts'
  have hts : ts.filter (Turn.concerns 0) = ts'.filter (Turn.concerns 0) := rfl
  obtain ⟨hsights,hstep,-⟩ := managers_apart s 0
  exact ⟨hts,hsights ts ts' hts,by decide +kernel,rfl,hstep 0 1 mux rfl (by decide) (by decide)⟩

end OfferAllocation
