import OfferAllocation.Proofs.Registry
import OfferAllocation.Proofs.Sequence

/-! Validation. A batch of filters is registered as a whole or not at all: one filter that is not in
order is enough for a refusal, and the first such filter says why. -/
namespace OfferAllocation

namespace FilterKind

theorem mem_table_iff {entry : String × FilterKind} :
    entry ∈ table ↔ ∃ kind : FilterKind, entry = (kind.name,kind) := by
  constructor
  · intro h
    have hname : ∀ entry ∈ table, entry.1 = entry.2.name := by decide
    exact ⟨entry.2,Prod.ext (hname entry h) rfl⟩
  · rintro ⟨kind,rfl⟩
    cases kind <;> decide

theorem ofName?_eq_none_iff {s : String} :
    ofName? s = none ↔ ∀ kind : FilterKind, Text.sameAscii s kind.name = false := by
  have hswap (kind : FilterKind) : Text.sameAscii s kind.name = Text.sameAscii kind.name s :=
    Bool.beq_comm
  simp only [ofName?,Option.map_eq_none_iff,List.find?_eq_none,mem_table_iff,Bool.not_eq_true,hswap]
  constructor
  · intro h kind
    exact h _ ⟨kind,rfl⟩
  · rintro h entry ⟨kind,rfl⟩
    exact h kind

end FilterKind

namespace Filter

/-- A filter that can be registered: it is of one of the attribute kinds, or it names a strategy by
a value. The case of letters in the kind is of no account. -/
inductive InOrder (f : Filter) : Prop
  | constraint (kind : FilterKind) (named : Text.sameAscii f.kind kind.name = true)
  | strategy (named : f.namesStrategy = true) (valued : f.values ≠ [])

/-- Why a filter cannot be registered for a task. -/
inductive Fault (task : String) (f : Filter) : RegistryError → Prop
  | invalidKind (unknown : ∀ kind : FilterKind, Text.sameAscii f.kind kind.name = false)
      (other : f.namesStrategy = false) : Fault task f (.invalidKind f.kind)
  | missingStrategy (named : f.namesStrategy = true) (unvalued : f.values = []) :
    Fault task f (.missingStrategy task)

variable {task : String} {f : Filter} {e e' : RegistryError}

theorem sameAscii_of_namesStrategy (h : f.namesStrategy = true) (kind : FilterKind) :
    Text.sameAscii f.kind kind.name = false := by
  have hnone := constraint?_of_namesStrategy h
  rw [constraint?,Option.map_eq_none_iff,FilterKind.ofName?_eq_none_iff] at hnone
  exact hnone kind

theorem InOrder.not_fault (h : f.InOrder) : ¬ f.Fault task e := by
  rintro (⟨hunknown,hother⟩ | ⟨hnamed,hunvalued⟩)
  · cases h with
    | constraint kind hkind => simp [hunknown kind] at hkind
    | strategy hnamed _ => simp [hother] at hnamed
  · cases h with
    | constraint kind hkind => simp [sameAscii_of_namesStrategy hnamed kind] at hkind
    | strategy _ hvalued => exact hvalued hunvalued

theorem Fault.unique (h : f.Fault task e) (h' : f.Fault task e') : e = e' := by
  cases h <;> cases h' <;> simp_all

end Filter

namespace Directive

variable {task : String} {f : Filter} {e : RegistryError}

/-- A filter is taken for something, or there is a fault in it. -/
theorem ofFilter_cases (task : String) (f : Filter) :
    (f.InOrder ∧ ∃ d, ofFilter task f = .ok d) ∨ ∃ e, f.Fault task e ∧ ofFilter task f = .error e := by
  unfold ofFilter
  split_ifs with hs
  · cases hv : f.values with
    | nil => exact .inr ⟨_,.missingStrategy hs hv,rfl⟩
    | cons v vs => exact .inl ⟨.strategy hs (by simp [hv]),_,rfl⟩
  · cases hk : FilterKind.ofName? f.kind with
    | none =>
      have hunknown := FilterKind.ofName?_eq_none_iff.mp hk
      exact .inr ⟨_,.invalidKind hunknown (Bool.eq_false_iff.mpr hs),rfl⟩
    | some kind =>
      obtain ⟨kind',hkind⟩ : ∃ kind' : FilterKind, Text.sameAscii f.kind kind'.name = true := by
        by_contra hnone
        have hunknown := FilterKind.ofName?_eq_none_iff (s := f.kind).mpr (by simpa using hnone)
        simp [hk] at hunknown
      exact .inl ⟨.constraint kind' hkind,_,rfl⟩

theorem ofFilter_isOk_iff : (∃ d, ofFilter task f = .ok d) ↔ f.InOrder := by
  obtain ⟨hin,hok⟩ | ⟨e,hfault,herror⟩ := ofFilter_cases task f
  · exact iff_of_true hok hin
  · exact iff_of_false (by simp [herror]) fun hin => hin.not_fault hfault

theorem ofFilter_eq_error_iff : ofFilter task f = .error e ↔ f.Fault task e := by
  obtain ⟨hin,d,hok⟩ | ⟨e',hfault,herror⟩ := ofFilter_cases task f
  · exact iff_of_false (by simp [hok]) hin.not_fault
  · rw [herror,Except.error.injEq]
    exact ⟨fun h => h ▸ hfault,fun h => hfault.unique h⟩

end Directive

namespace Batch

variable {task : String} {fs : List Filter} {e : RegistryError}

theorem ofFilters_isOk_iff : (∃ b, ofFilters task fs = .ok b) ↔ ∀ f ∈ fs, f.InOrder := by
  have hmap : (∃ b, ofFilters task fs = .ok b) ↔ ∃ ds, fs.mapM (Directive.ofFilter task) = .ok ds := by
    rw [ofFilters]
    cases fs.mapM (Directive.ofFilter task) <;> simp [bind,Except.bind,pure,Except.pure]
  simp only [hmap,mapM_isOk_iff,Directive.ofFilter_isOk_iff]

theorem ofFilters_eq_error_iff :
    ofFilters task fs = .error e ↔ FirstIn Filter.InOrder (Filter.Fault task · e) fs := by
  have hmap : ofFilters task fs = .error e ↔ fs.mapM (Directive.ofFilter task) = .error e := by
    rw [ofFilters]
    cases fs.mapM (Directive.ofFilter task) <;> simp [bind,Except.bind,pure,Except.pure]
  simp only [hmap,mapM_eq_error_iff,FirstIn,Directive.ofFilter_isOk_iff,
    Directive.ofFilter_eq_error_iff]

end Batch

/-- A batch is registered if every filter in it is in order. Otherwise the first that is not gives
the error, in a registry as in a manager over it, and nothing at all is changed. -/
theorem registered_whole_or_not (a : Allocator) (t : Task) (fs : List Filter) :
    ((∃ r, a.registry.step (.add t.name fs) = .ok r) ↔ ∀ f ∈ fs, f.InOrder) ∧
      ((a.step (.register t fs)).1.answer = .done ↔ ∀ f ∈ fs, f.InOrder) ∧
      ∀ e, (a.registry.step (.add t.name fs) = .error e ∧
            a.registry.next (.add t.name fs) = a.registry ↔
          FirstIn Filter.InOrder (Filter.Fault t.name · e) fs) ∧
        (a.step (.register t fs) = (⟨.refused (.registry e),[]⟩,a) ↔
          FirstIn Filter.InOrder (Filter.Fault t.name · e) fs) := by
  have hok : (∃ b, Batch.ofFilters t.name fs = .ok b) ↔ ∀ f ∈ fs, f.InOrder :=
    Batch.ofFilters_isOk_iff
  simp only [← hok,← Batch.ofFilters_eq_error_iff]
  cases hb : Batch.ofFilters t.name fs with
  | error e => simp [Registry.next,Registry.step,Allocator.step,hb,Except.map]
  | ok b => simp [Registry.step,Allocator.step,hb,Except.map]

end OfferAllocation
