import Mathlib.Data.List.Nodup
import Mathlib.Data.List.Perm.Basic
import OfferAllocation.Pool

/-! Pools by index and by number. Removals move entries to other indices, so what lasts of a pool is
the entry that it holds under each number; every operation has one equation for that view. -/
namespace OfferAllocation

attribute [ext] Pool

namespace Pool

open scoped List

/-- The entry with a number, wherever it stands. -/
def numbered (p : Pool) (n : Nat) : Option Entry := p.entries.find? fun e => e.position == n

/-- No two entries have the same number. -/
def Distinct (p : Pool) : Prop := (p.entries.map Entry.position).Nodup

theorem find?_eq_some_iff {p : Pool} {good : Entry → Bool} {e : Entry} {i : Nat} :
    p.find? good = some (e,i) ↔
      p.entries[i]? = some e ∧ good e = true ∧
        ∀ j < i, ∀ e', p.entries[j]? = some e' → good e' = false := by
  simp only [find?,List.find?_eq_some_iff_getElem,List.getElem_zipIdx,List.length_zipIdx,
    Nat.zero_add,Prod.mk.injEq,Bool.not_eq_true']
  constructor
  · rintro ⟨hg,k,hk,⟨he,rfl⟩,hlt⟩
    refine ⟨by simp [hk,he],hg,fun j hj e' he' => ?_⟩
    obtain ⟨hj',rfl⟩ := List.getElem?_eq_some_iff.mp he'
    exact hlt j hj
  · rintro ⟨he,hg,hlt⟩
    obtain ⟨hi,rfl⟩ := List.getElem?_eq_some_iff.mp he
    exact ⟨hg,i,hi,⟨rfl,rfl⟩,fun j hj => hlt j hj _ (List.getElem?_eq_getElem _)⟩

theorem find?_eq_none_iff {p : Pool} {good : Entry → Bool} :
    p.find? good = none ↔ ∀ e ∈ p.entries, good e = false := by
  simp only [find?,List.find?_eq_none,Bool.not_eq_true]
  constructor
  · intro h e he
    obtain ⟨i,hi⟩ := List.mem_iff_getElem?.mp he
    exact h (e,i) (List.mk_mem_zipIdx_iff_getElem?.mpr hi)
  · rintro h ⟨e,i⟩ he
    exact h e (List.mem_of_getElem? (List.mk_mem_zipIdx_iff_getElem?.mp he))

section Drop

variable {p : Pool} {i : Nat} {e left : Entry}

theorem drop_entries (h : i < p.entries.length) :
    (p.drop i).entries = (p.entries.set i (p.entries.getLast (by grind))).dropLast := by
  have hl := List.getLast?_eq_some_getLast (l := p.entries) (by grind)
  simp [drop,hl]

theorem drop_length (h : i < p.entries.length) :
    (p.drop i).entries.length + 1 = p.entries.length := by
  simp only [drop_entries h,List.length_dropLast,List.length_set]
  omega

/-- Where the entries of a pool stand after a removal. -/
theorem drop_getElem? (h : i < p.entries.length) {j : Nat} (hj : j < (p.drop i).entries.length) :
    (p.drop i).entries[j]? = if j = i then p.entries.getLast? else p.entries[j]? := by
  have hn := drop_length h
  rw [drop_entries h,List.getElem?_dropLast,List.getElem?_set]
  have hl := List.getLast?_eq_some_getLast (l := p.entries) (by grind)
  by_cases hji : j = i
  · subst j
    simp only [List.length_set,if_true,h,hl]
    rw [if_pos (by omega)]
  · simp only [List.length_set,hji,Ne.symm hji,if_false]
    rw [if_pos (by omega)]

@[simp] theorem drop_taken : (p.drop i).taken = p.taken := by
  unfold drop
  split <;> rfl

@[simp] theorem with_drop_entries :
    { p with entries := (p.drop i).entries } = p.drop i := by
  ext <;> simp

/-- What is written over an entry does not matter to its removal. -/
theorem drop_set (h : i < p.entries.length) : (p.set i left).drop i = p.drop i := by
  have hs : i < (p.set i left).entries.length := by simpa [set] using h
  have h1 := drop_length hs
  have h2 := drop_length h
  simp only [set,List.length_set] at h1
  refine Pool.ext (by simp [set]) (List.ext_getElem? fun j => ?_)
  by_cases hj : j < (p.drop i).entries.length
  · rw [drop_getElem? hs (by simp only [set]; omega),drop_getElem? h hj]
    by_cases hji : j = i
    · -- The index is still in use, so it was not the last one that was written over.
      simp only [hji,if_true,set,List.getLast?_eq_getElem?,List.length_set]
      exact List.getElem?_set_ne (by omega)
    · simp only [hji,if_false,set]
      exact List.getElem?_set_ne (Ne.symm hji)
  · rw [List.getElem?_eq_none (by simp only [set]; omega),List.getElem?_eq_none (by omega)]

theorem drop_perm_eraseIdx (h : i < p.entries.length) :
    (p.drop i).entries.Perm (p.entries.eraseIdx i) := by
  have hne : p.entries ≠ [] := by
    intro he
    simp [he] at h
  rw [drop_entries h]
  have hlast : (p.entries.set i (p.entries.getLast hne)).getLast? =
      some (p.entries.getLast hne) := by
    simp only [List.getLast?_eq_getElem?,List.length_set,List.getElem?_set,
      List.getLast_eq_getElem]
    split_ifs with hi
    · rfl
    · exact List.getElem?_eq_getElem _
  have hsplit := List.dropLast_append_getLast? _ hlast
  apply List.Perm.cons_inv (a := p.entries.getLast hne)
  calc
    _ :: (p.entries.set i (p.entries.getLast hne)).dropLast
      ~ (p.entries.set i (p.entries.getLast hne)).dropLast ++ [_] :=
        (List.perm_append_singleton _ _).symm
    _ = p.entries.set i (p.entries.getLast hne) := hsplit
    _ ~ _ :: p.entries.eraseIdx i := List.set_perm_cons_eraseIdx h _

/-- A removal takes out one entry and loses none of the others. -/
theorem drop_perm (h : p.entries[i]? = some e) : (e :: (p.drop i).entries).Perm p.entries := by
  obtain ⟨hi,rfl⟩ := List.getElem?_eq_some_iff.mp h
  exact ((drop_perm_eraseIdx hi).cons _).trans (List.getElem_cons_eraseIdx_perm hi)

end Drop

section Numbered

variable {p : Pool} {i n : Nat} {e left : Entry}

theorem find?_position_eq_some_iff {es : List Entry} (h : (es.map Entry.position).Nodup) :
    (es.find? fun e => e.position == n) = some e ↔ e ∈ es ∧ e.position = n := by
  constructor
  · intro he
    exact ⟨List.mem_of_find?_eq_some he,by simpa using List.find?_some he⟩
  · rintro ⟨he,rfl⟩
    cases hf : es.find? fun e' => e'.position == e.position with
    | none => simpa using List.find?_eq_none.mp hf e he
    | some e' =>
      have hp : e'.position = e.position := by simpa using List.find?_some hf
      rw [List.inj_on_of_nodup_map h (List.mem_of_find?_eq_some hf) he hp]

theorem numbered_eq_some_iff (h : p.Distinct) :
    p.numbered n = some e ↔ e ∈ p.entries ∧ e.position = n :=
  find?_position_eq_some_iff h

theorem numbered_eq_none_iff : p.numbered n = none ↔ n ∉ p.entries.map Entry.position := by
  simp [numbered]

/-- The order of the entries is of no account to the numbers. -/
theorem numbered_of_perm {es : List Entry} (h : p.Distinct) (hp : p.entries ~ es) :
    p.numbered n = es.find? fun e => e.position == n := by
  have hes : (es.map Entry.position).Nodup := (hp.map _).nodup_iff.mp h
  ext e
  rw [numbered_eq_some_iff h,find?_position_eq_some_iff hes,hp.mem_iff]

theorem set_perm (h : i < p.entries.length) :
    (p.set i left).entries ~ left :: p.entries.eraseIdx i :=
  List.set_perm_cons_eraseIdx h left

theorem perm_cons_eraseIdx (h : p.entries[i]? = some e) :
    p.entries ~ e :: p.entries.eraseIdx i := by
  obtain ⟨hi,rfl⟩ := List.getElem?_eq_some_iff.mp h
  exact (List.getElem_cons_eraseIdx_perm hi).symm

/-- An entry shares its number with none of the others. -/
theorem Distinct.others (h : p.Distinct) (he : p.entries[i]? = some e) :
    ((e :: p.entries.eraseIdx i).map Entry.position).Nodup :=
  ((perm_cons_eraseIdx he).map _).nodup_iff.mp h

theorem Distinct.set (h : p.Distinct) (he : p.entries[i]? = some e)
    (hl : left.position = e.position) : (p.set i left).Distinct := by
  have hi := (List.getElem?_eq_some_iff.mp he).1
  refine ((set_perm hi).map _).nodup_iff.mpr ?_
  simpa [hl] using h.others he

theorem Distinct.drop (h : p.Distinct) (he : p.entries[i]? = some e) : (p.drop i).Distinct := by
  have hi := (List.getElem?_eq_some_iff.mp he).1
  exact ((drop_perm_eraseIdx hi).map _).nodup_iff.mpr (List.nodup_cons.mp (h.others he)).2

theorem numbered_at (h : p.Distinct) (he : p.entries[i]? = some e) :
    p.numbered e.position = some e :=
  (numbered_eq_some_iff h).mpr ⟨List.mem_of_getElem? he,rfl⟩

theorem numbered_set (h : p.Distinct) (he : p.entries[i]? = some e)
    (hl : left.position = e.position) :
    (p.set i left).numbered n = if e.position = n then some left else p.numbered n := by
  have hi := (List.getElem?_eq_some_iff.mp he).1
  rw [numbered_of_perm (h.set he hl) (set_perm hi),numbered_of_perm h (perm_cons_eraseIdx he)]
  by_cases hn : e.position = n <;> simp [hl,hn]

theorem numbered_drop (h : p.Distinct) (he : p.entries[i]? = some e) :
    (p.drop i).numbered n = if e.position = n then none else p.numbered n := by
  have hi := (List.getElem?_eq_some_iff.mp he).1
  rw [numbered_of_perm (h.drop he) (drop_perm_eraseIdx hi),
    numbered_of_perm h (perm_cons_eraseIdx he)]
  by_cases hn : e.position = n
  · have hothers := (List.nodup_cons.mp (h.others he)).1
    rw [if_pos hn,List.find?_eq_none]
    intro x hx hxn
    have hpos : x.position = e.position := by rw [hn,eq_of_beq hxn]
    exact hothers (List.mem_map.mpr ⟨x,hx,hpos⟩)
  · simp [hn]

/-! One of the two is what a task does to the entry that it is given. -/

variable {keep : Prop} [Decidable keep]

theorem Distinct.set_or_drop (h : p.Distinct) (he : p.entries[i]? = some e)
    (hl : left.position = e.position) : (if keep then p.set i left else p.drop i).Distinct := by
  split
  · exact h.set he hl
  · exact h.drop he

theorem numbered_set_or_drop (h : p.Distinct) (he : p.entries[i]? = some e)
    (hl : left.position = e.position) :
    (if keep then p.set i left else p.drop i).numbered n =
      if e.position = n then (if keep then some left else none) else p.numbered n := by
  split
  · exact numbered_set h he hl
  · exact numbered_drop h he

end Numbered

section Intake

theorem intake_getElem? (n : Nat) (os : List Offer) (k : Nat) :
    (intake n os)[k]? = os[k]?.map (Entry.ofOffer (n+k)) := by
  induction os generalizing n k with
  | nil => simp [intake]
  | cons o os ih =>
    cases k with
    | zero => simp [intake]
    | succ k =>
      have hk : n+1+k = n+(k+1) := by omega
      simp [intake,ih,hk]

theorem intake_position (n : Nat) (os : List Offer) :
    (intake n os).map Entry.position = List.range' n os.length := by
  induction os generalizing n with
  | nil => rfl
  | cons o os ih => simp [intake,ih,List.range'_succ]

theorem replace_distinct (p : Pool) (os : List Offer) : (p.replace os).Distinct := by
  simp only [Distinct,replace,intake_position]
  exact List.nodup_range'

/-- After an intake the batch stands in the pool under consecutive numbers, and nothing else does. -/
theorem numbered_replace (p : Pool) (os : List Offer) (n : Nat) (e : Entry) :
    (p.replace os).numbered n = some e ↔
      ∃ k o, os[k]? = some o ∧ n = p.taken + k ∧ e = Entry.ofOffer n o := by
  rw [numbered_eq_some_iff (replace_distinct p os),List.mem_iff_getElem?]
  simp only [replace,intake_getElem?,Option.map_eq_some_iff]
  constructor
  · rintro ⟨⟨k,o,ho,rfl⟩,rfl⟩
    exact ⟨k,o,ho,rfl,rfl⟩
  · rintro ⟨k,o,ho,rfl,rfl⟩
    exact ⟨⟨k,o,ho,rfl⟩,rfl⟩

end Intake
end Pool
end OfferAllocation
