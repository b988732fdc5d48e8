import Mathlib.Data.List.Forall2
import OfferAllocation.Json.Codec
import OfferAllocation.Proofs.Sequence

/-! What single values are read from. Every kind of value has its forms in documents, and a list is
read item by item. A document in no form of a value is refused without a message. -/
namespace OfferAllocation
namespace Codec

section Definitions

variable {α : Type}

/-- A value is read from the forms that it has. -/
structure ReadsAs (c : Codec α) (form : Json → α → Prop) : Prop where
  takes : ∀ j a, c.read j = .ok a ↔ form j a
  refuses : ∀ j e, c.read j = .error e ↔ (∀ a, ¬ form j a) ∧ e = .shape

/-- A list is read from an array, each item from its own, and the first that does not fit decides. -/
structure ReadsEach (c : Codec (List α)) (item : Codec α) : Prop where
  takes : ∀ j as, c.read j = .ok as ↔
    ∃ js, j = .array js ∧ List.Forall₂ (fun j a => item.read j = .ok a) js as
  refuses : ∀ j e, c.read j = .error e ↔
    (∃ js, j = .array js ∧
      FirstIn (fun j => ∃ a, item.read j = .ok a) (fun j => item.read j = .error e) js) ∨
    (∀ js, j ≠ .array js) ∧ e = .shape

/-- What may be absent is `null`, or else it is read as it is where it may not. -/
structure ReadsOrNull (c : Codec (Option α)) (present : Codec α) : Prop where
  takes : ∀ j o, c.read j = .ok o ↔
    j = .null ∧ o = none ∨ j ≠ .null ∧ ∃ a, present.read j = .ok a ∧ o = some a
  refuses : ∀ j e, c.read j = .error e ↔ j ≠ .null ∧ present.read j = .error e

/-- The name by which a document asks for a variant: it is a text, or the first name of an object. -/
inductive Names : Json → String → Prop
  | text (s : String) : Names (.string s) s
  | object (s : String) (j : Json) (ms : List (Label × Json)) :
    Names (.object ((some s,j) :: ms)) s

/-- Nothing but the name is there. -/
inductive NamesOnly : Json → String → Prop
  | text (s : String) : NamesOnly (.string s) s
  | object (s : String) : NamesOnly (.object [(some s,.null)]) s

/-- A variant is read from its name. A name that is not known is reported together with all that are,
before anything else is looked at. -/
structure ReadsNamed (c : Codec α) (table : List (String × α)) : Prop where
  takes : ∀ j a, c.read j = .ok a ↔ ∃ s, NamesOnly j s ∧ (s,a) ∈ table
  unknown : ∀ j s, Names j s → (∀ a, (s,a) ∉ table) →
    c.read j = .error (.unknownVariant s (table.map Prod.fst))
  refuses : ∀ j, (∀ s, Names j s → ∃ a, (s,a) ∈ table) → (∀ s, ¬ NamesOnly j s) →
    c.read j = .error .shape

end Definitions

variable {α : Type} {c : Codec α} {j : Json} {e : Misfit} {text : String}

theorem reads_string : string.ReadsAs fun j s => j = .string s where
  takes j s := by cases j <;> simp [string]
  refuses j e := by cases j <;> simp [string,eq_comm]

theorem reads_double :
    double.ReadsAs fun j x => j = .real x ∨ ∃ n, j = .natural n ∧ x = nearestDouble n where
  takes j x := by cases j <;> simp [double,eq_comm]
  refuses j e := by cases j <;> simp [double,eq_comm]

theorem reads_word : word.ReadsAs fun j n => j = .natural n.toNat := by
  have hread (m : Nat) (n : UInt64) : word.read (.natural m) = .ok n ↔ m = n.toNat := by
    by_cases hm : m < Numeral.limit
    · simp only [word,hm,if_true,Except.ok.injEq]
      constructor
      · rintro rfl
        exact (UInt64.toNat_ofNat_of_lt hm).symm
      · rintro rfl
        exact UInt64.ofNat_toNat
    · refine iff_of_false (by simp [word,hm]) ?_
      rintro rfl
      exact hm n.toNat_lt
  refine ⟨fun j n => ?_,fun j e => ?_⟩
  · cases j with
    | natural m => rw [hread,Json.natural.injEq]
    | _ => simp [word]
  · cases j with
    | natural m =>
      simp only [Json.natural.injEq,← hread]
      by_cases hm : m < Numeral.limit <;> simp [word,hm,eq_comm]
    | _ => simp [word,eq_comm]

theorem readItems_cons {read : Json → Except Misfit α} {js : List Json} :
    readItems read (j :: js) = (read j).bind fun a => (readItems read js).map (a :: ·) := rfl

theorem readItems_eq_ok_iff {read : Json → Except Misfit α} {js : List Json} {as : List α} :
    readItems read js = .ok as ↔ List.Forall₂ (fun j a => read j = .ok a) js as := by
  induction js generalizing as with
  | nil => cases as <;> simp [readItems]
  | cons j js ih =>
    rw [readItems_cons,bind_eq_ok_iff,List.forall₂_cons_left_iff]
    simp only [map_eq_ok_iff,ih]
    constructor
    · rintro ⟨a,ha,as,has,rfl⟩
      exact ⟨a,as,ha,has,rfl⟩
    · rintro ⟨a,as,ha,has,rfl⟩
      exact ⟨a,ha,as,has,rfl⟩

theorem readItems_eq_error_iff {read : Json → Except Misfit α} {js : List Json} :
    readItems read js = .error e ↔
      FirstIn (fun j => ∃ a, read j = .ok a) (fun j => read j = .error e) js := by
  induction js with
  | nil => simp [readItems,firstIn_nil]
  | cons j js ih =>
    rw [readItems_cons,bind_eq_error_iff,firstIn_cons]
    simp only [map_eq_error_iff,ih]
    exact or_congr_right exists_and_right

theorem reads_list (c : Codec α) : c.list.ReadsEach c where
  takes j as := by
    simp only [← readItems_eq_ok_iff]
    cases j <;> simp [list]
  refuses j e := by
    simp only [← readItems_eq_error_iff]
    cases j <;> simp [list,eq_comm]

theorem option_read (h : j ≠ .null) : c.option.read j = (c.read j).map some := by
  cases j with
  | null => exact absurd rfl h
  | _ => rfl

theorem reads_option (c : Codec α) : c.option.ReadsOrNull c where
  takes j o := by
    by_cases h : j = .null
    · subst h
      simp [option,eq_comm]
    · simp only [option_read h,map_eq_ok_iff,h,false_and,false_or,ne_eq,not_false_eq_true,true_and,
        @eq_comm _ o]
  refuses j e := by
    by_cases h : j = .null
    · subst h
      simp [option]
    · simp [option_read h,map_eq_error_iff,h]

section Variants

variable {table : List (String × α)} {s : String} {a : α}

theorem variantNamed_eq_ok_iff_mem (distinct : (table.map Prod.fst).Nodup) :
    variantNamed table s = .ok a ↔ (s,a) ∈ table := by
  have hlookup : table.lookup s = some a ↔ (s,a) ∈ table := by
    constructor
    · intro h
      obtain ⟨before,after,rfl,-⟩ := List.lookup_eq_some_iff.mp h
      simp
    · intro h
      obtain ⟨before,after,rfl⟩ := List.append_of_mem h
      rw [List.map_append,List.nodup_append] at distinct
      refine List.lookup_eq_some_iff.mpr ⟨before,after,rfl,fun entry hentry => ?_⟩
      exact bne_iff_ne.mpr (distinct.2.2 entry.1 (List.mem_map_of_mem hentry) s (by simp)).symm
  rw [← hlookup,variantNamed]
  cases table.lookup s <;> simp

theorem variantNamed_of_unknown (h : ∀ a, (s,a) ∉ table) :
    variantNamed table s = .error (.unknownVariant s (table.map Prod.fst)) := by
  rw [variantNamed,List.lookup_eq_none_iff.mpr fun entry hentry => bne_iff_ne.mpr ?_]
  rintro rfl
  exact h entry.2 hentry

theorem reads_variant (distinct : (table.map Prod.fst).Nodup) (name : α → String) :
    (variant table name).ReadsNamed table where
  takes j a := by
    constructor
    · intro h
      match j with
      | .string s => exact ⟨s,.text s,(variantNamed_eq_ok_iff_mem distinct).mp h⟩
      | .object ((some s,v) :: ms) =>
        obtain ⟨a',ha',halone⟩ := bind_eq_ok_iff.mp h
        split at halone
        · cases halone
          exact ⟨s,.object s,(variantNamed_eq_ok_iff_mem distinct).mp ha'⟩
        · cases halone
      | .object [] | .object ((none,_) :: _) => cases h
      | .null | .bool _ | .natural _ | .real _ | .void | .array _ => cases h
    · rintro ⟨s,⟨⟩ | ⟨⟩,ha⟩
      · exact (variantNamed_eq_ok_iff_mem distinct).mpr ha
      · exact bind_eq_ok_iff.mpr ⟨a,(variantNamed_eq_ok_iff_mem distinct).mpr ha,rfl⟩
  unknown j s hs hunknown := by
    cases hs with
    | text => exact variantNamed_of_unknown hunknown
    | object => exact bind_eq_error_iff.mpr (.inl (variantNamed_of_unknown hunknown))
  refuses j hknown halone := by
    match j with
    | .string s => exact absurd (.text s) (halone s)
    | .object ((some s,v) :: ms) =>
      obtain ⟨a,ha⟩ := hknown s (.object s v ms)
      refine bind_eq_error_iff.mpr (.inr ⟨a,(variantNamed_eq_ok_iff_mem distinct).mpr ha,?_⟩)
      split
      · exact absurd (.object s) (halone s)
      · rfl
    | .object [] | .object ((none,_) :: _) => rfl
    | .null | .bool _ | .natural _ | .real _ | .void | .array _ => rfl

end Variants

theorem readText_of_parse (h : Json.parse text = some j) :
    c.readText text = (c.read j).mapError .misfit := by
  rw [readText,h]

theorem readText_eq_ok_iff (h : Json.parse text = some j) (a : α) :
    c.readText text = .ok a ↔ c.read j = .ok a := by
  rw [readText_of_parse h,mapError_eq_ok_iff]

end Codec
end OfferAllocation
