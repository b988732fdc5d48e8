import Mathlib.Algebra.BigOperators.Group.List.Basic
import OfferAllocation.Proofs.SharedStore

/-! Threads. Any number of threads update a shared store, each in its own order, and any of them may be
the next to run an update. Whatever the order that comes of it, no update is lost: each key ends up
as the updates of that key make it, one after another. -/
namespace OfferAllocation

/-- An update that a thread is going to run: a key, and the function that makes a new value. -/
structure Update (κ ν : Type) where
  key : κ
  next : Option ν → ν

/-- An update that a thread has run, with what the store replied. -/
structure Ran (κ ν : Type) where
  thread : Nat
  update : Update κ ν
  reply : Reply ν

/-- Threads, with what each of them has still to run, and the store that they share. -/
structure Crew (κ ν : Type) where
  pending : List (List (Update κ ν))
  shared : SharedStore κ ν

namespace Update

variable {κ ν : Type}

def access (u : Update κ ν) : Access κ ν := .update u.key u.next

/-- The order of two updates makes no difference. -/
def Commutes (f g : Update κ ν) : Prop := ∀ o, f.next (some (g.next o)) = g.next (some (f.next o))

/-- What the updates of a key make of its value, one after another. -/
def foldAt [DecidableEq κ] (k : κ) (us : List (Update κ ν)) (o : Option ν) : Option ν :=
  (us.filter fun u => u.key = k).foldl (fun o u => some (u.next o)) o

theorem foldAt_cons [DecidableEq κ] (k : κ) (u : Update κ ν) (us : List (Update κ ν)) (o : Option ν) :
    foldAt k (u :: us) o = foldAt k us (if u.key = k then some (u.next o) else o) := by
  by_cases hu : u.key = k <;> simp [foldAt,hu]

/-- Where updates commute, their order does not matter. -/
theorem foldAt_perm [DecidableEq κ] {k : κ} {us us' : List (Update κ ν)} (h : us.Perm us')
    (hcomm : ∀ f ∈ us, ∀ g ∈ us, f.key = k → g.key = k → f.Commutes g) (o : Option ν) :
    foldAt k us o = foldAt k us' o := by
  refine (h.filter _).foldl_eq' (fun f hf g hg o => ?_) o
  simp only [List.mem_filter,decide_eq_true_eq] at hf hg
  rw [hcomm g hg.1 f hf.1 hg.2 hf.2]

end Update

namespace Crew

variable {κ ν : Type}

/-- Nothing is left to run. -/
def Idle (w : Crew κ ν) : Prop := ∀ us ∈ w.pending, us = []

variable [DecidableEq κ]

/-- Some thread runs the first of the updates that it has still to run. -/
inductive Step (w : Crew κ ν) : Ran κ ν → Crew κ ν → Prop
  | run {i : Nat} {u : Update κ ν} {us : List (Update κ ν)}
      (first : w.pending[i]? = some (u :: us)) :
    Step w ⟨i,u,(w.shared.step u.access).1⟩ ⟨w.pending.set i us,(w.shared.step u.access).2⟩

inductive Run : Crew κ ν → List (Ran κ ν) → Crew κ ν → Prop
  | nil {w : Crew κ ν} : Run w [] w
  | cons {w w' w'' : Crew κ ν} {e : Ran κ ν} {es : List (Ran κ ν)} (step : Step w e w')
      (rest : Run w' es w'') : Run w (e :: es) w''

end Crew

/-! Interleavings of the updates of threads are what the threads can run. -/
section Interleavings

variable {κ ν : Type}

def Ran.call (e : Ran κ ν) : Nat × Update κ ν := (e.thread,e.update)

/-- The updates of a thread among those of all threads. -/
def updatesOf (i : Nat) (calls : List (Nat × Update κ ν)) : List (Update κ ν) :=
  (calls.filter fun c => c.1 = i).map Prod.snd

/-- Every update of every thread stands there once, and those of a thread in its order. -/
def Interleaves (threads : List (List (Update κ ν))) (calls : List (Nat × Update κ ν)) : Prop :=
  ∀ i, updatesOf i calls = threads[i]?.getD []

theorem updatesOf_cons (i : Nat) (c : Nat × Update κ ν) (calls : List (Nat × Update κ ν)) :
    updatesOf i (c :: calls) = if c.1 = i then c.2 :: updatesOf i calls else updatesOf i calls := by
  by_cases hc : c.1 = i <;> simp [updatesOf,hc]

theorem getD_set {threads : List (List (Update κ ν))} {j : Nat} {us us' : List (Update κ ν)}
    (h : threads[j]? = some us) (i : Nat) :
    (threads.set j us')[i]?.getD [] = if j = i then us' else threads[i]?.getD [] := by
  have hj : j < threads.length := (List.getElem?_eq_some_iff.mp h).1
  by_cases hi : j = i
  · subst hi
    simp [hj]
  · simp [hi]

theorem flatten_set_perm {threads : List (List (Update κ ν))} {j : Nat} {u : Update κ ν}
    {us : List (Update κ ν)} (h : threads[j]? = some (u :: us)) :
    threads.flatten.Perm (u :: (threads.set j us).flatten) := by
  induction threads generalizing j with
  | nil => simp at h
  | cons t threads ih =>
    cases j with
    | zero =>
      obtain rfl : t = u :: us := by simpa using h
      rfl
    | succ j =>
      have hrest := ih (by simpa using h)
      exact (hrest.append_left t).trans List.perm_middle

variable {w w' : Crew κ ν}

theorem Crew.Idle.getD (h : w.Idle) (i : Nat) : w.pending[i]?.getD [] = [] := by
  cases hi : w.pending[i]? with
  | none => rfl
  | some us => exact h us (List.mem_of_getElem? hi)

theorem Crew.Idle.flatten (h : w.Idle) : w.pending.flatten = [] := List.flatten_eq_nil_iff.mpr h

variable [DecidableEq κ] {es : List (Ran κ ν)}

namespace Crew

/-- What a thread has to run is what it runs and what it leaves. -/
theorem Run.pending (h : w.Run es w') (i : Nat) :
    w.pending[i]?.getD [] = updatesOf i (es.map Ran.call) ++ w'.pending[i]?.getD [] := by
  induction h with
  | nil => rfl
  | cons hstep _ ih =>
    obtain @⟨j,u,us,hfirst⟩ := hstep
    rw [getD_set hfirst] at ih
    rw [List.map_cons,updatesOf_cons]
    by_cases hj : j = i
    · subst hj
      simpa [Ran.call,hfirst] using ih
    · simpa [Ran.call,hj] using ih

theorem Run.perm (h : w.Run es w') :
    w.pending.flatten.Perm (es.map Ran.update ++ w'.pending.flatten) := by
  induction h with
  | nil => rfl
  | cons hstep _ ih =>
    obtain @⟨j,u,us,hfirst⟩ := hstep
    exact (flatten_set_perm hfirst).trans (ih.cons u)

/-- Every interleaving can be run. -/
theorem exists_run {calls : List (Nat × Update κ ν)} (h : Interleaves w.pending calls) :
    ∃ es w', w.Run es w' ∧ w'.Idle ∧ es.map Ran.call = calls := by
  induction calls generalizing w with
  | nil =>
    refine ⟨[],w,.nil,fun us hus => ?_,rfl⟩
    obtain ⟨i,hi⟩ := List.mem_iff_getElem?.mp hus
    have hnil := h i
    rw [hi] at hnil
    exact hnil.symm
  | cons c calls ih =>
    obtain ⟨j,u⟩ := c
    have hfirst : w.pending[j]? = some (u :: updatesOf j calls) := by
      have hj := h j
      rw [updatesOf_cons,if_pos rfl] at hj
      cases hp : w.pending[j]? with
      | none => simp [hp] at hj
      | some us => simpa [hp] using hj.symm
    -- Thread `j` is left with what the other calls are to run of it.
    let rest : Crew κ ν :=
      ⟨w.pending.set j (updatesOf j calls),(w.shared.step u.access).2⟩
    have hrest : Interleaves rest.pending calls := by
      intro i
      have hi := h i
      rw [updatesOf_cons] at hi
      rw [getD_set hfirst]
      split_ifs at hi ⊢ with hji
      · rw [hji]
      · exact hi
    obtain ⟨es,w',hrun,hidle,rfl⟩ := ih hrest
    exact ⟨_,w',.cons (.run hfirst) hrun,hidle,rfl⟩

end Crew
end Interleavings

/-! What the updates make of the store. -/

namespace Crew

variable {κ ν : Type} [DecidableEq κ] {w w' : Crew κ ν} {e : Ran κ ν} {es : List (Ran κ ν)}
  {s : Store κ ν}

/-- The function of an update that is run gets the value of its key, and what it makes of it becomes
that value; all other keys keep theirs. -/
theorem Step.update (h : w.Step e w') (hw : w.shared = ⟨s,false⟩) :
    ∃ s', w'.shared = ⟨s',false⟩ ∧ e.reply = .given (s.get? e.update.key) ∧
      ∀ k, s'.get? k = if e.update.key = k then some (e.update.next (s.get? k)) else s.get? k := by
  obtain @⟨i,u,us,-⟩ := h
  obtain ⟨r,s',hstep,hanswers,hafter⟩ | ⟨k,hfailing,-⟩ := SharedStore.step_cases s u.access
  · rw [hw,hstep]
    refine ⟨s',rfl,?_,fun k => ?_⟩
    · cases hanswers
      rfl
    · rw [hafter,Update.access,Access.after,Function.update_apply]
      by_cases hk : u.key = k
      · subst hk
        simp
      · simp [hk,Ne.symm hk]
  · cases hfailing

/-- What a run leaves at a key is what its updates of the key make of the value there. -/
theorem Run.final (h : w.Run es w') (hw : w.shared = ⟨s,false⟩) :
    ∃ s', w'.shared = ⟨s',false⟩ ∧
      ∀ k, s'.get? k = Update.foldAt k (es.map Ran.update) (s.get? k) := by
  induction h generalizing s with
  | nil => exact ⟨s,hw,fun _ => rfl⟩
  | cons hstep _ ih =>
    obtain ⟨s',hw',-,hs'⟩ := hstep.update hw
    obtain ⟨s'',hw'',hs''⟩ := ih hw'
    refine ⟨s'',hw'',fun k => ?_⟩
    rw [hs'',hs',List.map_cons,Update.foldAt_cons]

/-- The function of an update is given what the earlier ones made of the value. -/
theorem Run.given (h : w.Run es w') (hw : w.shared = ⟨s,false⟩) {es₁ es₂ : List (Ran κ ν)}
    (hes : es = es₁ ++ e :: es₂) :
    e.reply = .given (Update.foldAt e.update.key (es₁.map Ran.update) (s.get? e.update.key)) := by
  induction h generalizing s es₁ with
  | nil => simp at hes
  | cons hstep _ ih =>
    obtain ⟨s',hw',hreply,hs'⟩ := hstep.update hw
    cases es₁ with
    | nil =>
      obtain ⟨rfl,-⟩ := List.cons.inj hes
      exact hreply
    | cons e₁ es₁ =>
      obtain ⟨rfl,htail⟩ := List.cons.inj hes
      rw [ih hw' htail,hs',List.map_cons,Update.foldAt_cons]

/-- Threads over a store have run all their updates: `es` is what was run, in order, and `w` is what
is left. -/
structure Finishes (threads : List (List (Update κ ν))) (s : Store κ ν) (es : List (Ran κ ν))
    (w : Crew κ ν) : Prop where
  run : Run ⟨threads,⟨s,false⟩⟩ es w
  idle : w.Idle

/-- No update was lost: each was run once, in the order of its thread; its function was given what the
earlier updates of the key had made; and what they all made in the end is what is left. -/
structure Faithful (threads : List (List (Update κ ν))) (s : Store κ ν) (es : List (Ran κ ν))
    (w : Crew κ ν) : Prop where
  once : Interleaves threads (es.map Ran.call)
  given : ∀ es₁ e es₂, es = es₁ ++ e :: es₂ →
    e.reply = .given (Update.foldAt e.update.key (es₁.map Ran.update) (s.get? e.update.key))
  sound : w.shared.poisoned = false
  final : ∀ k, w.shared.store.get? k = Update.foldAt k (es.map Ran.update) (s.get? k)

namespace Finishes

variable {threads : List (List (Update κ ν))}

theorem interleaves (h : Finishes threads s es w) : Interleaves threads (es.map Ran.call) := by
  intro i
  have hi : threads[i]?.getD [] = _ := h.run.pending i
  rw [hi,h.idle.getD,List.append_nil]

theorem perm (h : Finishes threads s es w) : (es.map Ran.update).Perm threads.flatten := by
  have hperm := h.run.perm
  rw [h.idle.flatten,List.append_nil] at hperm
  exact hperm.symm

theorem faithful (h : Finishes threads s es w) : Faithful threads s es w := by
  obtain ⟨s',hw,hs'⟩ := h.run.final rfl
  exact ⟨h.interleaves,fun _ _ _ hes => h.run.given rfl hes,by rw [hw],by rwa [hw]⟩

theorem exists_iff {calls : List (Nat × Update κ ν)} :
    (∃ es w, Finishes threads s es w ∧ es.map Ran.call = calls) ↔ Interleaves threads calls := by
  constructor
  · rintro ⟨es,w,h,rfl⟩
    exact h.interleaves
  · intro h
    obtain ⟨es,w,hrun,hidle,hcalls⟩ := exists_run (w := ⟨threads,⟨s,false⟩⟩) h
    exact ⟨es,w,⟨hrun,hidle⟩,hcalls⟩

end Finishes
end Crew

/-! Updates that add a number to the first of a list. -/

namespace Update

variable {κ : Type}

/-- The first of the numbers that are bound, or zero. -/
def first (o : Option (List Int64)) : Int64 := (o.getD []).headD 0

def adding (k : κ) (x : Int64) : Update κ (List Int64) := ⟨k,fun o => [first o + x]⟩

theorem adding_commutes (k : κ) (x y : Int64) : (adding k x).Commutes (adding k y) := by
  intro o
  simp only [adding,first,Option.getD_some,List.headD_cons,Int64.add_assoc,Int64.add_comm x y]

/-- What an update adds. -/
def amount (u : Update κ (List Int64)) : Int := (first (some (u.next none))).toInt

/-- A signed machine word holds the number. -/
def Representable (z : Int) : Prop := -2 ^ 63 ≤ z ∧ z < 2 ^ 63

theorem amount_adding (k : κ) (x : Int64) : (adding k x).amount = x.toInt := by
  simp [amount,adding,first]

theorem toInt_first_next {u : Update κ (List Int64)} {k : κ} (hu : ∃ x, u = adding k x)
    {o : Option (List Int64)} (h : Representable ((first o).toInt + u.amount)) :
    (first (some (u.next o))).toInt = (first o).toInt + u.amount := by
  obtain ⟨x,rfl⟩ := hu
  rw [amount_adding] at h ⊢
  obtain ⟨hlow,hhigh⟩ := h
  have hsum : (first (some ((adding k x).next o))).toInt = (first o + x).toInt := rfl
  rw [hsum,Int64.toInt_add]
  exact Int.bmod_eq_of_le (by omega) (by omega)

/-- As long as no partial sum overflows, numbers are added up. -/
theorem toInt_first_foldAt [DecidableEq κ] {k : κ} {us : List (Update κ (List Int64))}
    (hus : ∀ u ∈ us, ∃ x, u = adding k x) {o : Option (List Int64)}
    (h : ∀ done, done <+: us → Representable ((first o).toInt + (done.map amount).sum)) :
    (first (foldAt k us o)).toInt = (first o).toInt + (us.map amount).sum := by
  induction us generalizing o with
  | nil => simp [foldAt]
  | cons u us ih =>
    obtain ⟨hu,hus⟩ := List.forall_mem_cons.mp hus
    have hkey : u.key = k := by
      obtain ⟨x,rfl⟩ := hu
      rfl
    have hnext : (first (some (u.next o))).toInt = (first o).toInt + u.amount := by
      apply toInt_first_next hu
      simpa using h [u] (by simp)
    -- A partial sum from the next value on is one from the former value on that takes in `u`.
    have hrest (done : List (Update κ (List Int64))) (hdone : done <+: us) :
        Representable ((first (some (u.next o))).toInt + (done.map amount).sum) := by
      have hcons := h (u :: done) (List.prefix_cons_inj u |>.mpr hdone)
      rwa [List.map_cons,List.sum_cons,← add_assoc,← hnext] at hcons
    rw [foldAt_cons,if_pos hkey,ih hus hrest,hnext,List.map_cons,List.sum_cons,add_assoc]

end Update

/-- Threads that update a shared store can run their updates in every interleaving, and in no other
way, and no update is ever lost. Where the updates of a key commute, all interleavings leave the same
value; and where each of `n` threads adds up the same numbers, all of them add up to `n` times their
sum, unless a partial sum overflows. -/
theorem no_update_lost {κ : Type} [DecidableEq κ] :
    (∀ (ν : Type) (threads : List (List (Update κ ν))) (s : Store κ ν),
      (∀ calls, (∃ es w, Crew.Finishes threads s es w ∧ es.map Ran.call = calls) ↔
        Interleaves threads calls) ∧
      (∀ es w, Crew.Finishes threads s es w → Crew.Faithful threads s es w) ∧
      ∀ k, (∀ f ∈ threads.flatten, ∀ g ∈ threads.flatten, f.key = k → g.key = k → f.Commutes g) →
        ∀ es w es' w', Crew.Finishes threads s es w → Crew.Finishes threads s es' w' →
          w.shared.store.get? k = w'.shared.store.get? k) ∧
    ∀ (n : Nat) (k : κ) (v : List Int64) (s : Store κ (List Int64)) (es : List (Ran κ (List Int64)))
      (w : Crew κ (List Int64)), Crew.Finishes (List.replicate n (v.map (Update.adding k))) s es w →
      (∀ done, done <+: es.map Ran.update → Update.Representable
        ((Update.first (s.get? k)).toInt + (done.map Update.amount).sum)) →
      (Update.first (w.shared.store.get? k)).toInt =
        (Update.first (s.get? k)).toInt + n * (v.map Int64.toInt).sum := by
  refine ⟨fun ν threads s => ⟨fun calls => Crew.Finishes.exists_iff,fun es w h => h.faithful,?_⟩,?_⟩
  · intro k hcomm es w es' w' h h'
    have hperm : (es.map Ran.update).Perm (es'.map Ran.update) := h.perm.trans h'.perm.symm
    rw [h.faithful.final,h'.faithful.final]
    refine Update.foldAt_perm hperm (fun f hf g hg => ?_) _
    exact hcomm f (h.perm.mem_iff.mp hf) g (h.perm.mem_iff.mp hg)
  · intro n k v s es w h hfits
    have hadding : ∀ u ∈ es.map Ran.update, ∃ x, u = Update.adding k x := by
      intro u hu
      have hmem := h.perm.mem_iff.mp hu
      simp only [List.mem_flatten,List.mem_replicate] at hmem
      obtain ⟨_,⟨-,rfl⟩,hv⟩ := hmem
      obtain ⟨x,-,rfl⟩ := List.mem_map.mp hv
      exact ⟨x,rfl⟩
    have hsum : ((es.map Ran.update).map Update.amount).sum = n * (v.map Int64.toInt).sum := by
      rw [(h.perm.map Update.amount).sum_eq]
      simp [List.map_flatten,List.sum_flatten,Function.comp_def,Update.amount_adding]
    rw [h.faithful.final,Update.toInt_first_foldAt hadding hfits,hsum]

theorem no_update_lost_four_threads :
    let one := Update.adding "a" 1
    let two := Update.adding "a" 2
    let threads := List.replicate 4 [one,two]
    let s := Store.empty.insert "a" [5,9]
    let calls := [(2,one),(0,one),(2,two),(3,one),(1,one),(1,two),(0,two),(3,two)]
    Interleaves threads calls ∧ ∃ es w, Crew.Finishes threads s es w ∧ es.map Ran.call = calls ∧
      (∀ done, done <+: es.map Ran.update → Update.Representable
        ((Update.first (s.get? "a")).toInt + (done.map Update.amount).sum)) ∧
      (∀ es' w', Crew.Finishes threads s es' w' →
        w.shared.store.get? "a" = w'.shared.store.get? "a") ∧
      (Update.first (w.shared.store.get? "a")).toInt = 17 := by
  intro one two threads s calls
  obtain ⟨hinterleavings,-,hcommuting⟩ := no_update_lost.1 (List Int64) threads s
  have hcalls : Interleaves threads calls := by
    rintro (_ | _ | _ | _ | i) <;> simp [threads,calls,updatesOf]
  obtain ⟨es,w,h,hes⟩ := (hinterleavings calls).mpr hcalls
  have hupdates : es.map Ran.update = [one,one,two,one,one,two,two,two] := by
    have hsnd : (es.map Ran.call).map Prod.snd = calls.map Prod.snd := by rw [hes]
    rwa [List.map_map] at hsnd
  have hfits (done : List (Update String (List Int64))) (hdone : done <+: es.map Ran.update) :
      Update.Representable ((Update.first (s.get? "a")).toInt + (done.map Update.amount).sum) := by
    rw [hupdates,← List.mem_inits] at hdone
    have hone : one.amount = 1 := Update.amount_adding "a" 1
    have htwo : two.amount = 2 := Update.amount_adding "a" 2
    have hfirst : (Update.first (s.get? "a")).toInt = 5 := by decide
    rw [hfirst]
    revert done
    simp [Update.Representable,hone,htwo]
  have hcomm : ∀ f ∈ threads.flatten, ∀ g ∈ threads.flatten, f.key = "a" → g.key = "a" →
      f.Commutes g := by
    simp [threads,one,two,Update.adding_commutes]
  have hsum := no_update_lost.2 4 "a" [1,2] s es w h hfits
  exact ⟨hcalls,es,w,h,hes,hfits,fun es' w' h' => hcommuting "a" hcomm es w es' w' h h',hsum⟩

end OfferAllocation
