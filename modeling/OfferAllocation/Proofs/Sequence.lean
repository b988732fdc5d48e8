import Mathlib.Data.List.Induction

/-! Things done one after the other. Each may fail, and the first that does decides. -/
namespace OfferAllocation

/-- In a list comes an item with `q`, and all before it have `p`. -/
def FirstIn {α : Type*} (p q : α → Prop) (l : List α) : Prop :=
  ∃ pre x post, l = pre ++ x :: post ∧ (∀ y ∈ pre, p y) ∧ q x

section FirstIn

variable {α : Type*} {p q : α → Prop}

theorem firstIn_nil : ¬ FirstIn p q [] := by simp [FirstIn]

theorem firstIn_cons {x : α} {l : List α} : FirstIn p q (x :: l) ↔ q x ∨ p x ∧ FirstIn p q l := by
  constructor
  · rintro ⟨pre,y,post,hl,hpre,hy⟩
    cases pre with
    | nil =>
      obtain ⟨rfl,-⟩ := List.cons.inj hl
      exact .inl hy
    | cons z pre =>
      obtain ⟨rfl,rfl⟩ := List.cons.inj hl
      obtain ⟨hx,hpre⟩ := List.forall_mem_cons.mp hpre
      exact .inr ⟨hx,pre,y,post,rfl,hpre,hy⟩
  · rintro (hx | ⟨hx,pre,y,post,rfl,hpre,hy⟩)
    · exact ⟨[],x,l,rfl,List.forall_mem_nil _,hx⟩
    · exact ⟨x :: pre,y,post,rfl,List.forall_mem_cons.mpr ⟨hx,hpre⟩,hy⟩

end FirstIn

section Then

variable {α ε β : Type} {x : Except ε α} {b : β} {e : ε}

theorem map_eq_ok_iff {g : α → β} : x.map g = .ok b ↔ ∃ a, x = .ok a ∧ g a = b := by
  cases x <;> simp [Except.map]

theorem map_eq_error_iff {g : α → β} : x.map g = .error e ↔ x = .error e := by
  cases x <;> simp [Except.map]

theorem bind_eq_ok_iff {g : α → Except ε β} : x.bind g = .ok b ↔ ∃ a, x = .ok a ∧ g a = .ok b := by
  cases x <;> simp [Except.bind]

theorem bind_eq_error_iff {g : α → Except ε β} :
    x.bind g = .error e ↔ x = .error e ∨ ∃ a, x = .ok a ∧ g a = .error e := by
  cases x <;> simp [Except.bind]

theorem mapError_eq_ok_iff {ε' : Type} {g : ε → ε'} {a : α} : x.mapError g = .ok a ↔ x = .ok a := by
  cases x <;> simp [Except.mapError]

end Then

section Map

variable {α ε β : Type} {f : α → Except ε β}

theorem mapM_isOk_iff {l : List α} : (∃ bs, l.mapM f = .ok bs) ↔ ∀ x ∈ l, ∃ b, f x = .ok b := by
  induction l with
  | nil => simp [pure,Except.pure]
  | cons x l ih =>
    rw [List.forall_mem_cons,← ih,List.mapM_cons]
    cases f x <;> cases l.mapM f <;> simp [bind,Except.bind,pure,Except.pure]

/-- The first item that fails decides. -/
theorem mapM_eq_error_iff {l : List α} {e : ε} :
    l.mapM f = .error e ↔ FirstIn (fun x => ∃ b, f x = .ok b) (f · = .error e) l := by
  induction l with
  | nil => simp [firstIn_nil,pure,Except.pure]
  | cons x l ih =>
    rw [firstIn_cons,← ih,List.mapM_cons]
    cases f x <;> cases l.mapM f <;> simp [bind,Except.bind,pure,Except.pure]

end Map

section Fold

variable {α σ ε : Type} {step : σ → α → Except ε σ} {holds : List α → σ → Prop}
  {fails : List α → α → ε → Prop}

/-- States are pictures of the items met so far: an item fails depending on those before it, and any
other has its place in the next picture. -/
structure Pictures (step : σ → α → Except ε σ) (holds : List α → σ → Prop)
    (fails : List α → α → ε → Prop) : Prop where
  unique : ∀ {met s s'}, holds met s → holds met s' → s = s'
  earlier : ∀ {met x s}, holds (met ++ [x]) s → ∃ s, holds met s
  ok : ∀ {met s}, holds met s → ∀ x s', step s x = .ok s' ↔ holds (met ++ [x]) s'
  error : ∀ {met s}, holds met s → ∀ x e, step s x = .error e ↔ fails met x e

namespace Pictures

variable (h : Pictures step holds fails) {met l : List α} {s s' : σ}

include h

theorem of_append (hs : holds (met ++ l) s) : ∃ s, holds met s := by
  induction l using List.reverseRecOn generalizing s with
  | nil => exact ⟨s,by simpa using hs⟩
  | append_singleton l x ih =>
    rw [← List.append_assoc] at hs
    obtain ⟨s,hs⟩ := h.earlier hs
    exact ih hs

theorem foldlM_eq_ok_iff (hs : holds met s) : l.foldlM step s = .ok s' ↔ holds (met ++ l) s' := by
  induction l generalizing met s with
  | nil =>
    rw [List.foldlM_nil,List.append_nil]
    constructor
    · rintro ⟨⟩
      exact hs
    · intro hs'
      exact congrArg Except.ok (h.unique hs hs')
  | cons x l ih =>
    rw [List.foldlM_cons,← List.singleton_append,← List.append_assoc]
    cases hx : step s x with
    | error e =>
      refine iff_of_false (by simp [bind,Except.bind]) fun hs' => ?_
      obtain ⟨s₁,hs₁⟩ := h.of_append hs'
      simp [(h.ok hs x s₁).mpr hs₁] at hx
    | ok s₁ => exact ih ((h.ok hs x s₁).mp hx)

theorem foldlM_eq_error_iff (hs : holds met s) {e : ε} :
    l.foldlM step s = .error e ↔
      ∃ pre x post, l = pre ++ x :: post ∧ (∃ s, holds (met ++ pre) s) ∧ fails (met ++ pre) x e := by
  constructor
  · intro hl
    induction l generalizing met s with
    | nil => cases hl
    | cons x l ih =>
      rw [List.foldlM_cons] at hl
      cases hx : step s x with
      | error e' =>
        rw [hx] at hl
        cases hl
        exact ⟨[],x,l,rfl,⟨s,by simpa using hs⟩,by simpa using (h.error hs x e).mp hx⟩
      | ok s₁ =>
        rw [hx] at hl
        obtain ⟨pre,y,post,rfl,hpre,hy⟩ := ih ((h.ok hs x s₁).mp hx) hl
        exact ⟨x :: pre,y,post,rfl,by simpa using hpre,by simpa using hy⟩
  · rintro ⟨pre,x,post,rfl,⟨s₁,hs₁⟩,hx⟩
    have hpre := (h.foldlM_eq_ok_iff hs).mpr hs₁
    have hstep := (h.error hs₁ x e).mpr hx
    rw [List.foldlM_append,hpre]
    simp [hstep,bind,Except.bind]

end Pictures
end Fold
end OfferAllocation
