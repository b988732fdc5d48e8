import OfferAllocation.Proofs.Admission

/-! Pieces. A filter does what its terms do one by one, and an attribute what its items or ranges do
one by one, as long as some term is left: filters without any term let nothing through, while no
filters at all let everything through. -/
namespace OfferAllocation

/-! Filters. -/

/-- For each of the terms a filter of the same kind. -/
def Constraint.pieces (c : Constraint) : List Constraint := c.values.map fun t => ⟨c.kind,[t]⟩

section Terms

variable {mode : FilterMode} {cs : List Constraint} {as : List Attribute} {kind : FilterKind}
  {t : String}

theorem Constraint.flatMap_pieces_eq_nil_iff :
    cs.flatMap Constraint.pieces = [] ↔ ∀ c ∈ cs, c.values = [] := by
  simp [pieces]

theorem admits_of_values_eq_nil (hne : cs ≠ []) (h : ∀ c ∈ cs, c.values = []) :
    admits mode cs as = false := by
  refine admits_of_no_term hne fun c hc => ?_
  cases mode with
  | textOnly => rw [Constraint.termsIn,h c hc,List.take_nil]
  | full => exact h c hc

theorem admits_pieces (h : cs = [] ∨ ∃ c ∈ cs, c.values ≠ []) :
    admits .full (cs.flatMap Constraint.pieces) as = admits .full cs as := by
  have hnil : cs.flatMap Constraint.pieces = [] ↔ cs = [] := by
    rw [Constraint.flatMap_pieces_eq_nil_iff]
    constructor
    · intro hvalues
      obtain hnil | ⟨c,hc,hne⟩ := h
      · exact hnil
      · exact absurd (hvalues c hc) hne
    · rintro rfl
      simp
  rw [Bool.eq_iff_iff,admits_iff,admits_iff,hnil]
  simp only [Constraint.pieces,List.mem_flatMap,List.mem_map]
  refine or_congr_right ⟨?_,?_⟩
  · rintro ⟨_,⟨c,hc,t,ht,rfl⟩,t',ht',hmeets⟩
    obtain rfl : t' = t := List.mem_singleton.mp ht'
    exact ⟨c,hc,t',ht,hmeets⟩
  · rintro ⟨c,hc,t,ht,hmeets⟩
    exact ⟨_,⟨c,hc,t,ht,rfl⟩,t,List.mem_singleton_self t,hmeets⟩

/-- Filters without any term are the only ones that their pieces do not stand for. -/
theorem admits_pieces_iff : admits .full (cs.flatMap Constraint.pieces) as = admits .full cs as ↔
    cs = [] ∨ ∃ c ∈ cs, c.values ≠ [] := by
  refine ⟨fun h => ?_,admits_pieces⟩
  by_cases hvalues : ∀ c ∈ cs, c.values = []
  · refine .inl (Classical.byContradiction fun hne => ?_)
    rw [admits_of_values_eq_nil hne hvalues,
      Constraint.flatMap_pieces_eq_nil_iff.mpr hvalues] at h
    simp at h
  · exact .inr (by simpa using hvalues)

end Terms

/-! Attributes. -/

theorem ValueRange.contains_cut {r : ValueRange} {m n : UInt64} (lower : r.first ≤ m)
    (upper : m < r.last) : r.contains n = true ↔
      (mk r.first m).contains n = true ∨ (mk (m+1) r.last).contains n = true := by
  have hlast := r.last.toNat_lt
  rw [UInt64.le_iff_toNat_le] at lower
  rw [UInt64.lt_iff_toNat_lt] at upper
  have hnext : (m+1).toNat = m.toNat + 1 := by
    rw [UInt64.toNat_add,UInt64.toNat_one]
    omega
  simp only [contains_iff,hnext]
  omega

namespace Attribute

/-- A set for each of the items, ranges for each of the ranges. -/
def pieces (a : Attribute) : List Attribute :=
  match a.value with
  | .set items => items.map fun item => .set a.name [item]
  | .ranges rs => rs.map fun r => .ranges a.name [r]
  | _ => [a]

/-- An attribute comes apart: a set into its items, ranges one from the other, and a range into what
lies up to some word in it and what lies above. -/
inductive ComesApart : Attribute → List Attribute → Prop
  | items (name : String) (items : List String) :
    ComesApart (.set name items) (items.map fun item => .set name [item])
  | ranges (name : String) (rs : List ValueRange) :
    ComesApart (.ranges name rs) (rs.map fun r => .ranges name [r])
  | cut (name : String) (before after : List ValueRange) {r : ValueRange} {m : UInt64}
      (lower : r.first ≤ m) (upper : m < r.last) :
    ComesApart (.ranges name (before ++ r :: after))
      [.ranges name (before ++ ⟨r.first,m⟩ :: ⟨m+1,r.last⟩ :: after)]

variable {a : Attribute} {parts : List Attribute} {kind : FilterKind} {t : String}

/-- The parts meet what the whole met. -/
theorem ComesApart.meets_iff (h : a.ComesApart parts) :
    (∃ b ∈ parts, b.value.Meets kind t) ↔ a.value.Meets kind t := by
  cases h with
  | items name items => simp [AttributeValue.Meets,and_left_comm]
  | ranges name rs =>
    cases hn : Admission.wordTerm? t <;> simp [AttributeValue.Meets,hn,and_left_comm]
  | cut name before after lower upper =>
    simp [AttributeValue.Meets,ValueRange.contains_cut lower upper,or_and_right,exists_or,or_assoc]

end Attribute

/-- What any number of attributes come apart into, one after the other. -/
inductive Subdivided (as : List Attribute) : List Attribute → Prop
  | refl : Subdivided as as
  | step (before after : List Attribute) {parts : List Attribute} {a : Attribute}
      (former : Subdivided as (before ++ a :: after)) (apart : a.ComesApart parts) :
    Subdivided as (before ++ parts ++ after)

namespace Subdivided

variable {mode : FilterMode} {cs : List Constraint} {as as' : List Attribute} {kind : FilterKind}
  {t : String}

theorem meets_iff (h : Subdivided as as') :
    (∃ a ∈ as', a.value.Meets kind t) ↔ ∃ a ∈ as, a.value.Meets kind t := by
  induction h with
  | refl => rfl
  | step before after _ apart ih =>
    rw [← ih]
    simp only [List.mem_append,List.mem_cons,or_and_right,exists_or,exists_eq_left,
      apart.meets_iff,or_assoc]

theorem admits (h : Subdivided as as') : admits mode cs as' = admits mode cs as := by
  rw [Bool.eq_iff_iff]
  simp only [admits_iff,h.meets_iff]

theorem pieces_after (before as' : List Attribute) (h : Subdivided as (before ++ as')) :
    Subdivided as (before ++ as'.flatMap Attribute.pieces) := by
  induction as' generalizing before with
  | nil => exact h
  | cons a as' ih =>
    rw [List.flatMap_cons,← List.append_assoc]
    refine ih _ ?_
    obtain ⟨name,value⟩ := a
    cases value with
    | scalar x => simpa [Attribute.pieces] using h
    | text s => simpa [Attribute.pieces] using h
    | set items => exact .step _ _ h (.items name items)
    | ranges rs => exact .step _ _ h (.ranges name rs)

theorem pieces (as : List Attribute) : Subdivided as (as.flatMap Attribute.pieces) :=
  pieces_after [] as .refl

end Subdivided

/-- A filter for sets is to a set what one for text is to the items as texts. -/
theorem admits_set_eq_text (name : String) (ts items : List String) :
    admits .full [⟨.set,ts⟩] [.set name items] =
      admits .full [⟨.text,ts⟩] (items.map fun item => .text name item) := by
  rw [Bool.eq_iff_iff]
  simp [admits_iff,AttributeValue.Meets,Constraint.kindIn,Constraint.termsIn]

/-- In full mode an offer is open to filters as it is to their pieces, and with its attributes as
with what these come apart into; filters without any term are the only exception, for no offer is
open to them in either mode. -/
theorem full_mode_by_pieces (cs : List Constraint) (as : List Attribute) :
    (∀ as', Subdivided as as' → admits .full cs as' = admits .full cs as ∧
      (admits .full (cs.flatMap Constraint.pieces) as' = admits .full cs as ↔
        cs = [] ∨ ∃ c ∈ cs, c.values ≠ [])) ∧
      Subdivided as (as.flatMap Attribute.pieces) ∧
      (∀ name ts items, admits .full [⟨.set,ts⟩] [.set name items] =
        admits .full [⟨.text,ts⟩] (items.map fun item => .text name item)) ∧
      (cs ≠ [] → (∀ c ∈ cs, c.values = []) → ∀ mode, admits mode cs as = false) := by
  refine ⟨fun as' h => ⟨h.admits,?_⟩,.pieces as,admits_set_eq_text,fun hne hvalues mode => ?_⟩
  · rw [h.admits]
    exact admits_pieces_iff
  · exact admits_of_values_eq_nil hne hvalues

theorem full_mode_by_pieces_port :
    let cs : List Constraint := [⟨.text,[]⟩,⟨.ranges,["web"," 443 "]⟩,⟨.set,["eu","us"]⟩]
    let ports (rs : List ValueRange) : Attribute := .ranges "ports" rs
    let as := [ports [⟨1,9⟩,⟨400,500⟩],.set "zone" ["Asia","EU-west"]]
    let as' := [ports [⟨1,9⟩,⟨400,442⟩,⟨443,500⟩],.set "zone" ["Asia","EU-west"]]
    let bare : List Constraint := [⟨.text,[]⟩,⟨.ranges,[]⟩]
    Subdivided as as' ∧ (∃ c ∈ cs, c.values ≠ []) ∧ admits .full cs as = true ∧
      admits .full cs as' = true ∧ admits .full (cs.flatMap Constraint.pieces) as' = true ∧
      bare ≠ [] ∧ (∀ c ∈ bare, c.values = []) ∧ admits .full bare as = false := by
  intro cs ports as as' bare
  have hcut : Subdivided as as' :=
    .step [] _ .refl (.cut "ports" [⟨1,9⟩] [] (m := 442) (by decide) (by decide))
  have hterm : ∃ c ∈ cs, c.values ≠ [] := by decide
  have hadmits : admits .full cs as = true := by decide +kernel
  obtain ⟨hparts,hpieces⟩ := (full_mode_by_pieces cs as).1 as' hcut
  have hbare := (full_mode_by_pieces bare as).2.2.2 (by decide) (by decide) .full
  exact ⟨hcut,hterm,hadmits,hparts.trans hadmits,(hpieces.mpr (.inr hterm)).trans hadmits,
    by decide,by decide,hbare⟩

end OfferAllocation
