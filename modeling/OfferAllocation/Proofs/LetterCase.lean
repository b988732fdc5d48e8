import Mathlib.Data.List.Forall2
import OfferAllocation.Proofs.History
import OfferAllocation.Proofs.Likeness
import OfferAllocation.Proofs.SmallLetters
import OfferAllocation.Proofs.Store

/-! Letter case. Everything that a manager meets has a form in which letter case is left aside, and a
call works on these forms as it works on the things themselves. So two runs whose calls have the same
forms go the same way, however the kinds, terms and texts in them are spelled. -/
namespace OfferAllocation

/-! The forms without case. Of an attribute the name goes too, for no filter looks at it. -/

def AttributeValue.uncased : AttributeValue → AttributeValue
  | .scalar x => .scalar x
  | .text s => .text (Text.uncased s)
  | .set items => .set (items.map Text.uncased)
  | .ranges rs => .ranges rs

def Attribute.uncased (a : Attribute) : Attribute := ⟨"",a.value.uncased⟩

def Offer.uncased (o : Offer) : Offer := { o with attributes := o.attributes.map Attribute.uncased }

def Filter.uncased (f : Filter) : Filter := ⟨Text.uncased f.kind,f.values.map Text.uncased⟩

def Constraint.uncased (c : Constraint) : Constraint := ⟨c.kind,c.values.map Text.uncased⟩

def Directive.uncased : Directive → Directive
  | .constraint c => .constraint c.uncased
  | .strategy s => .strategy s

def Batch.uncased (b : Batch) : Batch := ⟨b.constraints.map Constraint.uncased,b.strategy⟩

def Registry.uncased (r : Registry) : Registry :=
  ⟨r.lists.map (List.map Constraint.uncased),r.strategies⟩

def Entry.uncased (e : Entry) : Entry := { e with offer := e.offer.uncased }

def Pool.uncased (p : Pool) : Pool := { p with entries := p.entries.map Entry.uncased }

def Manager.uncased (m : Manager) : Manager := { m with pool := m.pool.uncased }

def Allocator.uncased (a : Allocator) : Allocator := ⟨a.registry.uncased,a.manager.uncased⟩

def Call.uncased : Call → Call
  | .offers os => .offers (os.map Offer.uncased)
  | .register t fs => .register t (fs.map Filter.uncased)
  | .clear t => .clear t
  | .assign t => .assign t

def RegistryError.uncased : RegistryError → RegistryError
  | .invalidKind kind => .invalidKind (Text.uncased kind)
  | .missingStrategy task => .missingStrategy task

def ManagerError.uncased : ManagerError → ManagerError
  | .noSuitableOffer task => .noSuitableOffer task
  | .registry e => .registry e.uncased

def Answer.uncased : Answer → Answer
  | .done => .done
  | .assigned e => .assigned e.uncased
  | .refused e => .refused e.uncased

def Report.uncased (r : Report) : Report := { r with answer := r.answer.uncased }

def Moment.uncased (m : Moment) : Moment := ⟨m.found.uncased,m.call.uncased⟩

/-! Admission looks at the kinds of filters and the values of attributes in no other way. -/

theorem Admission.matchesValue_uncased (mode : FilterMode) (c : Constraint) (v : AttributeValue) :
    matchesValue mode c.uncased v.uncased = matchesValue mode c v := by
  cases mode with
  | textOnly =>
    cases v <;>
      simp [matchesValue,firstTermMatches,AttributeValue.uncased,Constraint.uncased,Option.any_map]
  | full =>
    cases v <;>
      simp [matchesValue,anyTermMatches,AttributeValue.uncased,Constraint.uncased,Function.comp_def]

theorem admits_uncased (mode : FilterMode) (cs : List Constraint) (as : List Attribute) :
    admits mode (cs.map Constraint.uncased) (as.map Attribute.uncased) = admits mode cs as := by
  simp [admits,Function.comp_def,Attribute.uncased,Admission.matchesValue_uncased]

/-! Registration. -/

theorem Directive.ofFilter_uncased (task : String) (f : Filter) :
    ofFilter task f.uncased = ((ofFilter task f).map uncased).mapError RegistryError.uncased := by
  simp only [ofFilter,Filter.uncased,Text.sameAscii_uncased_left,FilterKind.ofName?_uncased]
  split_ifs
  · cases f.values with
    | nil => rfl
    | cons v vs => simp [Except.map,Except.mapError,uncased]
  · cases FilterKind.ofName? f.kind <;> rfl

theorem mapM_map_eq {α ε β : Type} {f : α → Except ε β} {a : α → α} {b : β → β} {e : ε → ε}
    (h : ∀ x, f (a x) = ((f x).map b).mapError e) (l : List α) :
    (l.map a).mapM f = ((l.mapM f).map (List.map b)).mapError e := by
  induction l with
  | nil => rfl
  | cons x l ih =>
    rw [List.map_cons,List.mapM_cons,List.mapM_cons,h,ih]
    cases f x <;> cases l.mapM f <;> rfl

theorem Batch.ofFilters_uncased (task : String) (fs : List Filter) :
    ofFilters task (fs.map Filter.uncased) =
      ((ofFilters task fs).map uncased).mapError RegistryError.uncased := by
  have hconstraints (ds : List Directive) :
      (ds.map Directive.uncased).filterMap Directive.constraint? =
        (ds.filterMap Directive.constraint?).map Constraint.uncased := by
    rw [List.filterMap_map,List.map_filterMap]
    exact List.filterMap_congr fun d _ => by cases d <;> rfl
  have hstrategies (ds : List Directive) :
      (ds.map Directive.uncased).filterMap Directive.strategy? =
        ds.filterMap Directive.strategy? := by
    rw [List.filterMap_map]
    exact List.filterMap_congr fun d _ => by cases d <;> rfl
  rw [ofFilters,mapM_map_eq (Directive.ofFilter_uncased task),ofFilters]
  cases fs.mapM (Directive.ofFilter task) with
  | error e => rfl
  | ok ds =>
    simp [Except.map,Except.mapError,bind,Except.bind,pure,Except.pure,hconstraints,hstrategies,
      uncased]

namespace Registry

variable (r : Registry) (task : String)

theorem filters_uncased :
    r.uncased.filters task = (r.filters task).map (List.map Constraint.uncased) :=
  Store.get?_map _ _ _

theorem enter_uncased (b : Batch) : r.uncased.enter task b.uncased = (r.enter task b).uncased := by
  have hlists : (r.uncased.enter task b.uncased).lists =
      (r.enter task b).lists.map (List.map Constraint.uncased) := by
    simp only [enter,filters_uncased,Batch.uncased,List.isEmpty_map]
    split_ifs
    · rfl
    · cases r.filters task <;> simp [uncased,Store.map_insert]
  exact congrArg (fun lists => Registry.mk lists _) hlists

theorem clear_uncased : r.uncased.clear task = (r.clear task).uncased := by
  simp [clear,uncased,Store.map_erase]

end Registry

namespace Allocator

variable {a : Allocator} {t : Task} {e : Entry}

theorem suits_uncased : a.uncased.Suits t e.uncased ↔ a.Suits t e := by
  have hadmits (cs : List Constraint) :
      admits a.manager.mode (cs.map Constraint.uncased) e.uncased.offer.attributes =
        admits a.manager.mode cs e.offer.attributes := admits_uncased _ cs _
  constructor
  · rintro ⟨hadmitted,hcpu,hmem⟩
    refine ⟨fun cs hcs => ?_,hcpu,hmem⟩
    rw [← hadmits]
    exact hadmitted _ (by simp [uncased,Registry.filters_uncased,hcs])
  · rintro ⟨hadmitted,hcpu,hmem⟩
    refine ⟨fun cs hcs => ?_,hcpu,hmem⟩
    simp only [uncased,Registry.filters_uncased,Option.map_eq_some_iff] at hcs
    obtain ⟨cs,hcs,rfl⟩ := hcs
    exact (hadmits cs).trans (hadmitted cs hcs)

theorem seenThrough_uncased (a : Allocator) (t : Task) :
    SeenThrough Offer.uncased a a.uncased t t := ⟨rfl,fun _ => suits_uncased⟩

/-- A call works on forms without case as it works on the things themselves. -/
theorem step_uncased (a : Allocator) (c : Call) :
    a.uncased.step c.uncased = ((a.step c).1.uncased,(a.step c).2.uncased) := by
  cases c with
  | offers os =>
    have hpool := a.manager.pool.replace_through (f := Offer.uncased) (fun _ _ => rfl) os
    simp only [step,Call.uncased,Manager.receive,List.length_map,Prod.mk.injEq]
    refine ⟨rfl,?_⟩
    exact congrArg a.uncased.withPool hpool
  | register t fs =>
    simp only [step,Call.uncased,Batch.ofFilters_uncased]
    cases Batch.ofFilters t.name fs with
    | error e => rfl
    | ok b =>
      have hregistry := a.registry.enter_uncased t.name b
      simp only [Except.map,Except.mapError,Batch.uncased,List.length_map,Prod.mk.injEq]
      exact ⟨rfl,congrArg (Allocator.mk · a.manager.uncased) hregistry⟩
  | clear t =>
    have hregistry := a.registry.clear_uncased t.name
    have hfilters := a.registry.filters_uncased t.name
    simp only [step,Call.uncased,Prod.mk.injEq]
    refine ⟨?_,congrArg (Allocator.mk · a.manager.uncased) hregistry⟩
    simp only [uncased,hfilters,Option.isSome_map]
    rfl
  | assign t =>
    have hseen := a.seenThrough_uncased t
    obtain hnone | ⟨i,e,hfirst⟩ := a.step_assign_cases t
    · rw [Call.uncased,step_assign_of_none hnone,step_assign_of_none (hseen.none hnone)]
      rfl
    · have hkeeps : a.uncased.keeps t ((Demand.ofTask t).take e.uncased) =
          a.keeps t ((Demand.ofTask t).take e) := rfl
      rw [Call.uncased,step_assign_of_firstAt hfirst,
        step_assign_of_firstAt (hseen.firstAt hfirst)]
      simp only [show e.through Offer.uncased = e.uncased from rfl,hkeeps,Prod.mk.injEq]
      refine ⟨rfl,?_⟩
      split_ifs
      · exact congrArg a.uncased.withPool (a.manager.pool.set_through _ i ((Demand.ofTask t).take e))
      · exact congrArg a.uncased.withPool (a.manager.pool.drop_through _ i)

end Allocator

namespace Moment

theorem report_uncased (m : Moment) : m.uncased.report = m.report.uncased := by
  simp only [report,uncased,Allocator.step_uncased]

theorem left_uncased (m : Moment) : m.uncased.left = m.left.uncased := by
  simp only [left,uncased,Allocator.step_uncased]

/-- Two moments that differ in nothing but letter case: the same is answered, the same is held for
each task, and the pools that are left have the same entries. -/
structure SameButCase (m m' : Moment) : Prop where
  report : m.report.uncased = m'.report.uncased
  constraints : ∀ task, (m.left.registry.filters task).map (List.map Constraint.uncased) =
    (m'.left.registry.filters task).map (List.map Constraint.uncased)
  strategy : ∀ task, m.left.registry.strategy task = m'.left.registry.strategy task
  entries : m.left.manager.pool.entries.map Entry.uncased =
    m'.left.manager.pool.entries.map Entry.uncased

theorem sameButCase {m m' : Moment} (h : m.uncased = m'.uncased) : m.SameButCase m' := by
  have hleft : m.left.uncased = m'.left.uncased := by rw [← left_uncased,← left_uncased,h]
  have hregistry : m.left.registry.uncased = m'.left.registry.uncased :=
    congrArg Allocator.registry hleft
  constructor
  · rw [← report_uncased,← report_uncased,h]
  · intro task
    rw [← Registry.filters_uncased,← Registry.filters_uncased,hregistry]
  · intro task
    exact congrArg (fun r => r.strategy task) hregistry
  · exact congrArg (fun a => a.manager.pool.entries) hleft

end Moment

/-- Letter case makes no difference: where two runs have the same calls but for the case of letters in
filters and attributes, and for the names of attributes, every call has the same outcome in both. -/
theorem letter_case_immaterial {a a' : Allocator} {cs cs' : List Call} (ha : a.uncased = a'.uncased)
    (hcs : List.Forall₂ (fun c c' => c.uncased = c'.uncased) cs cs') :
    List.Forall₂ Moment.SameButCase (a.moments cs) (a'.moments cs') := by
  refine Allocator.forall₂_moments (R := fun a a' => a.uncased = a'.uncased) ha hcs
    fun a a' c c' ha hc => ?_
  have hmoment : (Moment.mk a c).uncased = (Moment.mk a' c').uncased :=
    congrArg₂ Moment.mk ha hc
  have hleft : (Moment.mk a c).left.uncased = (Moment.mk a' c').left.uncased := by
    rw [← Moment.left_uncased,← Moment.left_uncased,hmoment]
  exact ⟨Moment.sameButCase hmoment,hleft⟩

theorem letter_case_immaterial_two_spellings :
    let task := Task.named "t1" [.cpus 1,.mem 512]
    let offer (attributes : List Attribute) : Offer :=
      { id := "o1", resources := [.cpus 4,.mem 4096], attributes }
    let a := Allocator.mk .empty (.ofConfig { allocator := { filterMode := .full } })
    let cs : List Call := [
      .offers [offer [.text "rack" "ΑΣ Rack",.set "zone" ["East"]],offer [.scalar "size" 10]],
      .register task [⟨"TEXT",["gpu","ας RACK"]⟩,⟨"Strategy",["Mux"]⟩],.assign task,
      .register task [⟨"Colour",["Red"]⟩],.clear task,.register task [⟨"scalar",["1E1"]⟩],
      .assign task]
    let cs' : List Call := [
      .offers [offer [.text "r" "ΑΣ rack",.set "" ["EAST"]],offer [.scalar "s" 10]],
      .register task [⟨"text",["GPU","ας Rack"]⟩,⟨"strategy",["MUX"]⟩],.assign task,
      .register task [⟨"colour",["RED"]⟩],.clear task,.register task [⟨"SCALAR",["1e1"]⟩],
      .assign task]
    a.uncased = a.uncased ∧ List.Forall₂ (fun c c' => c.uncased = c'.uncased) cs cs' ∧
      (a.run cs).1.filterMap Report.given? = [0,1] ∧
      List.Forall₂ Moment.SameButCase (a.moments cs) (a.moments cs') := by
  intro task offer a cs cs'
  have hkinds : Text.uncased "TEXT" = Text.uncased "text" ∧
      Text.uncased "Strategy" = Text.uncased "strategy" ∧
      Text.uncased "Colour" = Text.uncased "colour" ∧
      Text.uncased "scalar" = Text.uncased "SCALAR" := by
    decide +kernel
  have htexts : Text.uncased "ΑΣ Rack" = Text.uncased "ΑΣ rack" ∧
      Text.uncased "East" = Text.uncased "EAST" ∧ Text.uncased "gpu" = Text.uncased "GPU" ∧
      Text.uncased "ας RACK" = Text.uncased "ας Rack" ∧ Text.uncased "Mux" = Text.uncased "MUX" ∧
      Text.uncased "Red" = Text.uncased "RED" ∧ Text.uncased "1E1" = Text.uncased "1e1" := by
    decide +kernel
  have hcs : List.Forall₂ (fun c c' => c.uncased = c'.uncased) cs cs' := by
    simp [cs,cs',offer,Call.uncased,Filter.uncased,Offer.uncased,Attribute.uncased,Attribute.text,
      Attribute.set,Attribute.scalar,AttributeValue.uncased,hkinds,htexts]
  exact ⟨rfl,hcs,by decide +kernel,letter_case_immaterial rfl hcs⟩

end OfferAllocation
