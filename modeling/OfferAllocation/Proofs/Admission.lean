import Mathlib.Logic.Basic
import OfferAllocation.Admission

/-! Admission, term by term. An offer is open to a task with filters when a term that counts meets
an attribute. The mode decides which terms count and what they may meet, so that text mode is full
mode on other filters. -/
namespace OfferAllocation

theorem ValueRange.contains_iff {r : ValueRange} {n : UInt64} :
    r.contains n = true ↔ r.first.toNat ≤ n.toNat ∧ n.toNat ≤ r.last.toNat := by
  simp [contains,UInt64.le_iff_toNat_le]

namespace Attribute

@[simp] theorem value_text (name s : String) : (text name s).value = .text s := rfl

@[simp] theorem value_set (name : String) (items : List String) :
    (set name items).value = .set items := rfl

@[simp] theorem value_ranges (name : String) (rs : List ValueRange) :
    (ranges name rs).value = .ranges rs := rfl

end Attribute

/-- What a term for values of a kind meets: a text or an item of a set that is the same up to case,
a scalar equal to the double that it stands for, a range that holds the word that it stands for. -/
def AttributeValue.Meets (kind : FilterKind) (t : String) : AttributeValue → Prop
  | .text s => kind = .text ∧ Text.lower t = Text.lower s
  | .scalar x => kind = .scalar ∧ ∃ y, Admission.doubleTerm? t = some y ∧ (y == x) = true
  | .set items => kind = .set ∧ ∃ item ∈ items, Text.lower t = Text.lower item
  | .ranges rs =>
    kind = .ranges ∧ ∃ n, Admission.wordTerm? t = some n ∧ ∃ r ∈ rs, r.contains n = true

namespace Constraint

/-- The kind of the values that the terms of a filter may meet. -/
def kindIn (c : Constraint) : FilterMode → FilterKind
  | .textOnly => .text
  | .full => c.kind

/-- The terms of a filter that count. -/
def termsIn (c : Constraint) : FilterMode → List String
  | .textOnly => c.values.take 1
  | .full => c.values

/-- A filter for text with the first term of another, if that has a term. -/
def leading (c : Constraint) : Constraint := ⟨.text,c.values.take 1⟩

variable {c : Constraint}

theorem kindIn_leading : c.leading.kindIn .full = c.kindIn .textOnly := rfl

theorem termsIn_leading : c.leading.termsIn .full = c.termsIn .textOnly := rfl

theorem leading_eq_self (hkind : c.kind = .text) (hvalues : c.values.length ≤ 1) :
    c.leading = c := by
  rw [leading,List.take_of_length_le hvalues,← hkind]

end Constraint

theorem Admission.matchesValue_iff {mode : FilterMode} {c : Constraint} {v : AttributeValue} :
    matchesValue mode c v = true ↔ ∃ t ∈ c.termsIn mode, v.Meets (c.kindIn mode) t := by
  cases mode with
  | textOnly =>
    cases hc : c.values <;> cases v <;> simp [matchesValue,firstTermMatches,Constraint.kindIn,
      Constraint.termsIn,AttributeValue.Meets,Text.sameLower_iff,hc]
  | full =>
    cases v <;> simp [matchesValue,anyTermMatches,Constraint.kindIn,Constraint.termsIn,
      AttributeValue.Meets,Text.sameLower_iff,Option.any_eq_true,and_left_comm]

section Admits

variable {mode : FilterMode} {cs : List Constraint} {as : List Attribute}

/-- One match of one term is enough. -/
theorem admits_iff : admits mode cs as = true ↔ cs = [] ∨
    ∃ c ∈ cs, ∃ t ∈ c.termsIn mode, ∃ a ∈ as, a.value.Meets (c.kindIn mode) t := by
  have hmatch (c : Constraint) : (∃ a ∈ as, Admission.matchesValue mode c a.value = true) ↔
      ∃ t ∈ c.termsIn mode, ∃ a ∈ as, a.value.Meets (c.kindIn mode) t := by
    simp only [Admission.matchesValue_iff]
    constructor
    · rintro ⟨a,ha,t,ht,hmeets⟩
      exact ⟨t,ht,a,ha,hmeets⟩
    · rintro ⟨t,ht,a,ha,hmeets⟩
      exact ⟨a,ha,t,ht,hmeets⟩
  simp only [admits,Bool.or_eq_true,List.isEmpty_iff,List.any_eq_true,hmatch]

/-- Filters of which no term counts let nothing through. -/
theorem admits_of_no_term (hne : cs ≠ []) (h : ∀ c ∈ cs, c.termsIn mode = []) :
    admits mode cs as = false := by
  rw [← Bool.not_eq_true,admits_iff]
  rintro (hnil | ⟨c,hc,t,ht,-⟩)
  · exact hne hnil
  · simp [h c hc] at ht

/-- On filters for text, text mode admits no more than full mode, where more terms count. -/
theorem admits_full_of_textOnly (hkind : ∀ c ∈ cs, c.kind = .text)
    (h : admits .textOnly cs as = true) : admits .full cs as = true := by
  rw [admits_iff] at h ⊢
  obtain hnil | ⟨c,hc,t,ht,a,ha,hmeets⟩ := h
  · exact .inl hnil
  · have hterm : t ∈ c.values := List.mem_of_mem_take ht
    have hsame : c.kindIn .full = c.kindIn .textOnly := hkind c hc
    exact .inr ⟨c,hc,t,hterm,a,ha,hsame ▸ hmeets⟩

end Admits

/-- Text mode is full mode on the leading terms of the filters, taken for text. On filters for text
it admits no more than full mode, and no less either if none has a second term. -/
theorem text_mode_in_full_mode (cs : List Constraint) (as : List Attribute) :
    admits .textOnly cs as = admits .full (cs.map Constraint.leading) as ∧
      ((∀ c ∈ cs, c.kind = .text) →
        (admits .textOnly cs as = true → admits .full cs as = true) ∧
        ((∀ c ∈ cs, c.values.length ≤ 1) → admits .textOnly cs as = admits .full cs as)) := by
  have hleading : admits .textOnly cs as = admits .full (cs.map Constraint.leading) as := by
    rw [Bool.eq_iff_iff]
    simp [admits_iff,Constraint.kindIn_leading,Constraint.termsIn_leading]
  refine ⟨hleading,fun hkind => ⟨admits_full_of_textOnly hkind,fun hvalues => ?_⟩⟩
  have hself : cs.map Constraint.leading = cs :=
    (List.map_congr_left fun c hc => Constraint.leading_eq_self (hkind c hc) (hvalues c hc)).trans
      (List.map_id cs)
  rw [hleading,hself]

theorem text_mode_in_full_mode_one_board :
    let as : List Attribute := [.scalar "size" 4,.set "zone" ["GPU"],.text "board" "Gpu"]
    let mixed : List Constraint := [⟨.scalar,["4","gpu"]⟩,⟨.ranges,[]⟩,⟨.scalar,["GPU","4"]⟩]
    let texts : List Constraint := [⟨.text,["rack-1"]⟩,⟨.text,[]⟩,⟨.text,["gPU"]⟩]
    admits .textOnly mixed as = admits .full (mixed.map Constraint.leading) as ∧
      admits .textOnly mixed as = true ∧ (∀ c ∈ texts, c.kind = .text) ∧
      (∀ c ∈ texts, c.values.length ≤ 1) ∧ admits .textOnly texts as = true ∧
      admits .full texts as = true ∧ admits .textOnly texts as = admits .full texts as := by
  intro as mixed texts
  have hkind : ∀ c ∈ texts, c.kind = .text := by decide
  have hvalues : ∀ c ∈ texts, c.values.length ≤ 1 := by decide
  have hmixed : admits .textOnly mixed as = true := by decide +kernel
  have htexts : admits .textOnly texts as = true := by decide +kernel
  obtain ⟨hfull,hequal⟩ := (text_mode_in_full_mode texts as).2 hkind
  exact ⟨(text_mode_in_full_mode mixed as).1,hmixed,hkind,hvalues,htexts,hfull htexts,
    hequal hvalues⟩

end OfferAllocation
