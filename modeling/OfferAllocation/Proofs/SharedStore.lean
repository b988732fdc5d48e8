import OfferAllocation.Proofs.Store
import OfferAllocation.SharedStore

/-! Shared stores as partial functions. Up to an update that fails, a shared store answers as a partial
function from keys to values does; that update leaves the lock poisoned, and nobody gets to see what
it had taken out. -/
namespace OfferAllocation

variable {κ ν : Type}

/-- What a partial function answers to an access. There is no answer to an update that fails. -/
inductive Answers (t : κ → Option ν) : Access κ ν → Reply ν → Prop
  | get {k : κ} : Answers t (.get k) (.value (t k))
  | set {k : κ} {v : ν} : Answers t (.set k v) .stored
  | delete {k : κ} : Answers t (.delete k) (.flag (t k).isSome)
  | contains {k : κ} : Answers t (.contains k) (.flag (t k).isSome)
  | size {n : Nat} (bound : {k | t k ≠ none}.encard = n) : Answers t .size (.count n)
  | isEmpty {b : Bool} (unbound : b = true ↔ ∀ k, t k = none) : Answers t .isEmpty (.flag b)
  | update {k : κ} {f : Option ν → ν} : Answers t (.update k f) (.given (t k))

theorem Answers.unique {t : κ → Option ν} {a : Access κ ν} {r r' : Reply ν} (h : Answers t a r)
    (h' : Answers t a r') : r = r' := by
  cases h with
  | size hn =>
    cases h' with
    | size hn' => rw [Nat.cast_injective (hn.symm.trans hn')]
  | isEmpty hb =>
    cases h' with
    | isEmpty hb' => rw [Bool.eq_iff_iff.mpr (hb.trans hb'.symm)]
  | _ => cases h'; rfl

variable [DecidableEq κ]

/-- The partial function that an access leaves. What an update leaves that fails is never seen. -/
def Access.after (t : κ → Option ν) : Access κ ν → κ → Option ν
  | .set k v => Function.update t k (some v)
  | .delete k => Function.update t k none
  | .update k f => Function.update t k (some (f (t k)))
  | _ => t

/-- The replies to a sequence of accesses: those of a partial function, up to an update that fails;
after it all are refused. -/
inductive Behaves : (κ → Option ν) → List (Access κ ν) → List (Reply ν) → Prop
  | nil {t : κ → Option ν} : Behaves t [] []
  | cons {t : κ → Option ν} {a : Access κ ν} {r : Reply ν} {as : List (Access κ ν)}
      {rs : List (Reply ν)} (answers : Answers t a r) (rest : Behaves (a.after t) as rs) :
    Behaves t (a :: as) (r :: rs)
  | failed {t : κ → Option ν} {k : κ} {as : List (Access κ ν)} :
    Behaves t (.updateFailing k :: as) (.failed :: List.replicate as.length .refused)

theorem Behaves.unique {t : κ → Option ν} {as : List (Access κ ν)} {rs rs' : List (Reply ν)}
    (h : Behaves t as rs) (h' : Behaves t as rs') : rs = rs' := by
  induction h generalizing rs' with
  | nil => cases h'; rfl
  | cons ha _ ih =>
    cases h' with
    | cons ha' hrest' => rw [ha.unique ha',ih hrest']
    | failed => cases ha
  | failed =>
    cases h' with
    | cons ha' _ => cases ha'
    | failed => rfl

namespace SharedStore

variable (s : Store κ ν)

/-- One access to a store that is not poisoned: it answers as the partial function does and leaves
what the partial function becomes, or it is an update that fails. -/
theorem step_cases (a : Access κ ν) :
    (∃ r s', (mk s false).step a = (r,mk s' false) ∧ Answers s.get? a r ∧
      s'.get? = a.after s.get?) ∨
    ∃ k, a = .updateFailing k ∧ (mk s false).step a = (.failed,mk (s.erase k) true) := by
  have hinsert (s : Store κ ν) (k : κ) (v : ν) :
      (s.insert k v).get? = Function.update s.get? k (some v) := by
    funext k'
    simp only [Store.get?_insert,Function.update_apply,eq_comm]
  have herase (k : κ) : (s.erase k).get? = Function.update s.get? k none := by
    funext k'
    simp only [Store.get?_erase,Function.update_apply,eq_comm]
  cases a with
  | get k => exact .inl ⟨_,_,rfl,.get,rfl⟩
  | set k v => exact .inl ⟨_,_,rfl,.set,hinsert s k v⟩
  | delete k => exact .inl ⟨_,_,rfl,.delete,herase k⟩
  | contains k => exact .inl ⟨_,_,rfl,.contains,rfl⟩
  | size => exact .inl ⟨_,_,rfl,.size s.encard_bound,rfl⟩
  | isEmpty => exact .inl ⟨_,_,rfl,.isEmpty s.isEmpty_iff,rfl⟩
  | update k f =>
    -- The binding is taken out before it is made anew, which leaves no trace.
    refine .inl ⟨_,_,rfl,.update,?_⟩
    rw [hinsert,herase,Function.update_idem]
    rfl
  | updateFailing k => exact .inr ⟨k,rfl,rfl⟩

theorem run_poisoned (as : List (Access κ ν)) :
    (mk s true).run as = (List.replicate as.length .refused,mk s true) := by
  induction as with
  | nil => rfl
  | cons a as ih => simp [run,step,ih,List.replicate_succ]

theorem behaves_run (as : List (Access κ ν)) : Behaves s.get? as ((mk s false).run as).1 := by
  induction as generalizing s with
  | nil => exact .nil
  | cons a as ih =>
    obtain ⟨r,s',hstep,hanswers,hafter⟩ | ⟨k,rfl,hstep⟩ := step_cases s a
    · simp only [run,hstep]
      exact .cons hanswers (hafter ▸ ih s')
    · simp only [run,hstep,run_poisoned]
      exact .failed

end SharedStore

/-- The replies of a shared store are exactly those of a partial function, up to an update that fails:
after that one, every access to every key is refused. -/
theorem behaves_iff_run (s : Store κ ν) (as : List (Access κ ν)) (rs : List (Reply ν)) :
    Behaves s.get? as rs ↔ ((SharedStore.mk s false).run as).1 = rs := by
  have hrun := SharedStore.behaves_run s as
  constructor
  · exact hrun.unique
  · rintro rfl
    exact hrun

example : ((SharedStore.mk (Store.empty.insert 1 5) false).run [.update 1 fun v => v.getD 0 + 2,.get 1,
    .updateFailing 1,.contains 1,.set 2 3]).1 =
      [.given (some 5),.value (some 7),.failed,.refused,.refused] := by decide

end OfferAllocation
