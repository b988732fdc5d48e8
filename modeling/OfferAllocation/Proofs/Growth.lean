import OfferAllocation.Proofs.Admission
import OfferAllocation.Proofs.Reordering

/-! Growth. Once a task has filters, more filters only open more offers to it, for one match is
enough; it is the first filters that close offers. The registry holds no empty list, so a task
without filters and one with an empty list never stand side by side. -/
namespace OfferAllocation

section Admits

variable {mode : FilterMode} {cs cs' : List Constraint} {as as' : List Attribute}

theorem admits_append_filters (h : cs ≠ []) (h' : cs' ≠ []) :
    admits mode (cs ++ cs') as = (admits mode cs as || admits mode cs' as) := by
  rw [Bool.eq_iff_iff,Bool.or_eq_true]
  simp [admits_iff,h,h',or_and_right,exists_or]

theorem admits_append_attributes (h : cs ≠ []) :
    admits mode cs (as ++ as') = (admits mode cs as || admits mode cs as') := by
  rw [Bool.eq_iff_iff,Bool.or_eq_true]
  simp [admits_iff,h,or_and_right,and_or_left,exists_or]

/-- No filter is matched where there is nothing to match. -/
theorem admits_no_attributes : admits mode cs [] = true ↔ cs = [] := by simp [admits_iff]

theorem admits_more_filters (h : cs ≠ []) (ha : admits mode cs as = true) (cs' : List Constraint) :
    admits mode (cs ++ cs') as = true := by
  by_cases h' : cs' = []
  · rwa [h',List.append_nil]
  · rw [admits_append_filters h h',ha,Bool.true_or]

end Admits

namespace Registry

variable {r : Registry} {task : String} {c : Registration}

/-- Only a clear takes filters away. -/
theorem exists_getD_filters_next (r : Registry) (hc : c ≠ .clear task) :
    ∃ added, ((r.next c).filters task).getD [] = (r.filters task).getD [] ++ added := by
  cases c with
  | add t fs =>
    cases hb : Batch.ofFilters t fs with
    | error e => exact ⟨[],by simp [next,step,hb,Except.map]⟩
    | ok b => exact ⟨_,by simpa [next,step,hb,Except.map] using r.getD_filters_enter t task b⟩
  | clear t =>
    have ht : t ≠ task := fun h => hc (h ▸ rfl)
    exact ⟨[],by simp [next,step,filters_clear,ht]⟩

/-- A registry holds no empty list. -/
theorem filters_run_eq_none_iff (cs : List Registration) (task : String) :
    (empty.run cs).filters task = none ↔ ((empty.run cs).filters task).getD [] = [] := by
  have hempty : empty.Mirrors task (standing task []) := mirrors_empty task
  have hmirrors := hempty.run cs
  rw [hmirrors.getD_filters,hmirrors.filters]
  simp only [ite_eq_left_iff,reduceCtorEq,imp_false,not_not]

end Registry

namespace Manager

variable {m : Manager} {r : Registry} {task : String} {e : Entry} {c : Registration}

/-- What is open to the filters of a task stays open to them and more. -/
theorem isOpen_next (hheld : (r.filters task).getD [] ≠ []) (hc : c ≠ .clear task)
    (h : m.isOpen r task e = true) : m.isOpen (r.next c) task e = true := by
  obtain ⟨added,hadded⟩ := r.exists_getD_filters_next hc
  rw [isOpen_eq] at h ⊢
  rw [hadded]
  exact admits_more_filters hheld h added

theorem isOpen_run {cs : List Registration} (hheld : (r.filters task).getD [] ≠ [])
    (hcs : .clear task ∉ cs) (h : m.isOpen r task e = true) :
    m.isOpen (r.run cs) task e = true := by
  induction cs generalizing r with
  | nil => exact h
  | cons c cs ih =>
    obtain ⟨hc,hcs⟩ := List.ne_and_not_mem_of_not_mem_cons hcs
    obtain ⟨added,hadded⟩ := r.exists_getD_filters_next hc.symm
    refine ih ?_ hcs (isOpen_next hheld hc.symm h)
    rw [hadded]
    exact List.append_ne_nil_of_left_ne_nil hheld added

/-- An offer is closed to a task by nothing but the first filters of the task. -/
theorem first_of_closed (hopen : m.isOpen r task e = true)
    (hclosed : m.isOpen (r.next c) task e = false) :
    (r.filters task).getD [] = [] ∧ ∃ fs, c = .add task fs ∧ (r.next c).filters task ≠ none := by
  have hfilters : (r.next c).filters task ≠ none := by
    intro hnone
    simp [isOpen,hnone] at hclosed
  have hclear : c ≠ .clear task := by
    rintro rfl
    exact hfilters (by simp [Registry.next,Registry.step,Registry.filters_clear])
  have hnil : (r.filters task).getD [] = [] := by
    by_contra hheld
    simp [isOpen_next hheld hclear hopen] at hclosed
  refine ⟨hnil,?_⟩
  by_cases htask : c.task = task
  · cases c with
    | add t fs => exact ⟨fs,htask ▸ rfl,hfilters⟩
    | clear t => exact absurd (htask ▸ rfl) hclear
  · have hsame : (r.next c).AgreeOn task r := Registry.AgreeOn.next_of_ne ⟨rfl,rfl⟩ htask
    have hunchanged : m.isOpen (r.next c) task e = m.isOpen r task e := by
      rw [isOpen,isOpen,hsame.filters]
    rw [hunchanged,hopen] at hclosed
    cases hclosed

end Manager

/-- Filters joined, or attributes joined, admit what either part admits, as long as no part is an
empty list of filters. So whatever is registered for a task that has filters, no offer is closed to
it before it is cleared: only the registration that begins its list can close one. And an offer
without attributes is open just to tasks that have no filters. -/
theorem admission_grows_from_first_filters :
    (∀ mode cs cs' as, cs ≠ [] → cs' ≠ [] →
      admits mode (cs ++ cs') as = (admits mode cs as || admits mode cs' as)) ∧
      (∀ mode cs as as', cs ≠ [] →
        admits mode cs (as ++ as') = (admits mode cs as || admits mode cs as')) ∧
      ∀ (calls : List Registration) (m : Manager) (task : String) (e : Entry),
        let r := Registry.empty.run calls
        (r.filters task ≠ none → m.isOpen r task e = true →
          ∀ later, .clear task ∉ later → m.isOpen (r.run later) task e = true) ∧
        (∀ c, m.isOpen r task e = true → m.isOpen (r.next c) task e = false →
          r.filters task = none ∧ ∃ fs, c = .add task fs ∧ (r.next c).filters task ≠ none) ∧
        (e.offer.attributes = [] → (m.isOpen r task e = true ↔ r.filters task = none)) := by
  refine ⟨fun _ _ _ _ => admits_append_filters,fun _ _ _ _ => admits_append_attributes,?_⟩
  intro calls m task e r
  have hnone : r.filters task = none ↔ (r.filters task).getD [] = [] :=
    Registry.filters_run_eq_none_iff calls task
  refine ⟨?_,?_,?_⟩
  · intro hheld hopen later hlater
    exact Manager.isOpen_run (hnone.not.mp hheld) hlater hopen
  · intro c hopen hclosed
    obtain ⟨hnil,hfirst⟩ := Manager.first_of_closed hopen hclosed
    exact ⟨hnone.mpr hnil,hfirst⟩
  · intro hbare
    rw [Manager.isOpen_eq,hbare,admits_no_attributes,hnone]

theorem admission_grows_from_first_filters_gpu :
    let calls : List Registration := [.add "t1" [⟨"text",["gpu"]⟩]]
    let later : List Registration := [.add "t1" [⟨"set",["eu"]⟩,⟨"strategy",["mux"]⟩],
      .add "t1" [⟨"colour",["red"]⟩],.clear "t2",.add "t1" [⟨"ranges",[]⟩]]
    let m := Manager.ofConfig { allocator := { filterMode := .full } }
    let board := Entry.ofOffer 0 { id := "o1", attributes := [.text "board" "GPU"] }
    let bare := Entry.ofOffer 1 { id := "o2" }
    let r := Registry.empty.run calls
    r.filters "t1" ≠ none ∧ .clear "t1" ∉ later ∧ m.isOpen r "t1" board = true ∧
      m.isOpen (r.run later) "t1" board = true ∧ m.isOpen r "t2" board = true ∧
      m.isOpen (r.next (.add "t2" [⟨"text",["ssd"]⟩])) "t2" board = false ∧
      r.filters "t2" = none ∧ m.isOpen r "t1" bare = false := by
  intro calls later m board bare r
  have hheld : r.filters "t1" ≠ none := by decide +kernel
  have hlater : .clear "t1" ∉ later := by decide +kernel
  have hboard : m.isOpen r "t1" board = true := by decide +kernel
  have hopen : m.isOpen r "t2" board = true := by decide +kernel
  have hclosed : m.isOpen (r.next (.add "t2" [⟨"text",["ssd"]⟩])) "t2" board = false := by
    decide +kernel
  obtain ⟨-,-,hlaws⟩ := admission_grows_from_first_filters
  have hbare : ¬ m.isOpen r "t1" bare = true :=
    ((hlaws calls m "t1" bare).2.2 rfl).not.mpr hheld
  exact ⟨hheld,hlater,hboard,(hlaws calls m "t1" board).1 hheld hboard later hlater,hopen,hclosed,
    ((hlaws calls m "t2" board).2.1 _ hopen hclosed).1,Bool.eq_false_iff.mpr hbare⟩

end OfferAllocation
