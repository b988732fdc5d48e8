import OfferAllocation.Proofs.History

/-! The lives of entries. Between two intakes each entry of a pool lives on its own: tasks are served
from it one after the other until one of them does not leave it to be shared. A run of an allocator
is a family of such lives, whatever the order in which entries come to stand in the pool. -/
namespace OfferAllocation

/-- What a sequence of tasks makes of an entry. -/
def Entry.after (e : Entry) (ts : List Task) : Entry :=
  ts.foldl (fun e t => (Demand.ofTask t).take e) e

/-- An amount from which a sequence of tasks has been debited, each in its turn. -/
def debited (amount : Demand → Float) (x : Float) (ts : List Task) : Float :=
  ts.foldl (fun x t => x - amount (.ofTask t)) x

/-- The last disk that a sequence of tasks describes. -/
def lastDiskOf (ts : List Task) : Option Disk :=
  (ts.filterMap fun t => (Demand.ofTask t).disk).getLast?

namespace Entry

variable (e : Entry) (ts : List Task) (t : Task)

@[simp] theorem after_nil : e.after [] = e := rfl

@[simp] theorem after_concat : e.after (ts ++ [t]) = (Demand.ofTask t).take (e.after ts) := by
  simp [after]

theorem after_position : (e.after ts).position = e.position := by
  induction ts using List.reverseRecOn with
  | nil => rfl
  | append_singleton ts t ih => simp [ih]

theorem after_offer : (e.after ts).offer = e.offer := by
  induction ts using List.reverseRecOn with
  | nil => rfl
  | append_singleton ts t ih => simp [ih]

theorem after_cpu : (e.after ts).cpu = debited Demand.cpu e.cpu ts := by
  induction ts using List.reverseRecOn with
  | nil => rfl
  | append_singleton ts t ih => simp [Demand.take,debited,ih]

theorem after_mem : (e.after ts).mem = debited Demand.mem e.mem ts := by
  induction ts using List.reverseRecOn with
  | nil => rfl
  | append_singleton ts t ih => simp [Demand.take,debited,ih]

theorem after_disk : (e.after ts).disk = (lastDiskOf ts).or e.disk := by
  induction ts using List.reverseRecOn with
  | nil => rfl
  | append_singleton ts t ih =>
    cases hd : (Demand.ofTask t).disk <;>
      simp [Demand.take,lastDiskOf,List.filterMap_append,hd,ih]

theorem after_accepted (h : e.accepted = false) : (e.after ts).accepted = true ↔ ts ≠ [] := by
  cases ts using List.reverseRecOn with
  | nil => simp [h]
  | append_singleton ts t => simp

end Entry

/-- The life of an entry: the servings from it in order, and what is left of it in the pool. Each
task must fit what its predecessors have left, and only a serving that leaves the offer to be shared
lets it live on. -/
inductive Life (first : Entry) : List Serving → Option Entry → Prop
  | fresh : Life first [] (some first)
  | served {ss : List Serving} {e : Entry} {s : Serving} (before : Life first ss (some e))
      (fits : (Demand.ofTask s.task).fits e = true)
      (left : s.entry = (Demand.ofTask s.task).take e) :
    Life first (ss ++ [s]) (if s.Shared then some s.entry else none)

namespace Life

variable {first e : Entry} {ss : List Serving} {x : Option Entry}

theorem eq_after (h : Life first ss x) : ∀ e ∈ x, e = first.after (ss.map Serving.task) := by
  induction h with
  | fresh => simp
  | served before fits left ih =>
    obtain rfl := ih _ rfl
    simp [left]

theorem of_nil (h : Life first [] x) : x = some first := by
  generalize hss : ([] : List Serving) = ss at h
  cases h with
  | fresh => rfl
  | served => simp at hss

theorem offer (h : Life first ss (some e)) : e.offer = first.offer := by
  rw [h.eq_after e rfl,Entry.after_offer]

theorem accepted_iff (h : Life first ss (some e)) (hf : first.accepted = false) :
    e.accepted = true ↔ ss ≠ [] := by
  rw [h.eq_after e rfl,Entry.after_accepted _ _ hf]
  simp

/-- No task was given more than there was. -/
theorem amounts_nonneg (h : Life first ss x) {ts : List Task} (hts : ts ≠ [])
    (hp : ts <+: ss.map Serving.task) : (first.after ts).cpu ≥ 0 ∧ (first.after ts).mem ≥ 0 := by
  induction h with
  | fresh => exact absurd (List.prefix_nil.mp hp) hts
  | served before fits left ih =>
    rw [List.map_append,List.map_singleton,List.prefix_concat_iff] at hp
    obtain rfl | hp := hp
    · obtain rfl := before.eq_after _ rfl
      simpa [Demand.fits,Demand.take] using fits
    · exact ih hp

/-- An entry is left as long as its offer was shared every time. -/
theorem isSome_iff (h : Life first ss x) : x.isSome ↔ ∀ s ∈ ss.getLast?, s.Shared := by
  cases h with
  | fresh => simp
  | @served ss e s before fits left =>
    by_cases hs : s.Shared <;> simp [hs]

theorem shared_of_mem_dropLast (h : Life first ss x) : ∀ s ∈ ss.dropLast, s.Shared := by
  induction h with
  | fresh => simp
  | @served ss e s before fits left ih =>
    intro s' hs'
    rw [List.dropLast_concat] at hs'
    -- Something was left before the last serving, so the one before it was shared as well.
    have hlast := before.isSome_iff.mp rfl
    obtain rfl | ⟨ss,s'',rfl⟩ := List.eq_nil_or_concat ss
    · simp at hs'
    · rw [List.concat_eq_append] at hs' hlast ih
      rcases List.mem_append.mp hs' with hs' | hs'
      · exact ih s' (by simpa using hs')
      · obtain rfl := List.mem_singleton.mp hs'
        exact hlast s' (by simp)

/-- An entry that is still there after a serving has something left on both axes. -/
theorem not_exhausted (h : Life first ss (some e)) (hss : ss ≠ []) :
    (e.cpu == 0) = false ∧ (e.mem == 0) = false := by
  generalize hx : some e = x at h
  cases h with
  | fresh => exact absurd rfl hss
  | @served ss e' s before fits left =>
    split_ifs at hx with hs
    obtain rfl := Option.some.inj hx
    exact hs.2

end Life

/-- Since a pool was like `start`, each of its entries has led its own life, and no other entry has
come in. -/
structure Tracks (start : Pool) (ms : List Moment) (p : Pool) : Prop where
  distinct : p.Distinct
  lives : ∀ n first, start.numbered n = some first → Life first (servingsOf n ms) (p.numbered n)
  strangers : ∀ n, start.numbered n = none → servingsOf n ms = [] ∧ p.numbered n = none

namespace Tracks

variable {start : Pool} {ms : List Moment}

theorem refl (h : start.Distinct) : Tracks start [] start where
  distinct := h
  lives := by
    intro n first hn
    rw [hn]
    exact .fresh
  strangers := fun n hn => ⟨rfl,hn⟩

/-- A moment without an intake is one more event in the life of at most one entry. -/
theorem moment {m : Moment} (h : Tracks start ms m.found.manager.pool)
    (hm : m.call.isIntake = false) : Tracks start (ms ++ [m]) m.left.manager.pool := by
  obtain ⟨hnone,hpool⟩ | ⟨s,i,e,hserving,hfirst,hleft,hpool⟩ := m.within_cases hm
  · have hnew (n : Nat) : servingsOf n [m] = [] := by simp [servingsOf,servings,hnone]
    rw [hpool]
    exact ⟨h.distinct,by simpa [hnew] using h.lives,by simpa [hnew] using h.strangers⟩
  · have hpos : s.entry.position = e.position := by rw [hleft,Demand.take_position]
    have hnew (n : Nat) : servingsOf n [m] = if e.position = n then [s] else [] := by
      simp [servingsOf,servings,hserving,List.filter_singleton,hpos]
    have hnum (n : Nat) : m.left.manager.pool.numbered n =
        if e.position = n then (if s.Shared then some s.entry else none)
        else m.found.manager.pool.numbered n := by
      rw [hpool,Pool.numbered_set_or_drop h.distinct hfirst.entry hpos]
    have hfound := Pool.numbered_at h.distinct hfirst.entry
    refine ⟨?_,fun n first hn => ?_,fun n hn => ?_⟩
    · rw [hpool]
      exact h.distinct.set_or_drop hfirst.entry hpos
    · have hlife := h.lives n first hn
      rw [servingsOf_append,hnew,hnum]
      by_cases he : e.position = n
      · subst he
        rw [if_pos rfl,if_pos rfl]
        rw [hfound] at hlife
        exact .served hlife hfirst.suits.fits hleft
      · rwa [if_neg he,if_neg he,List.append_nil]
    · obtain ⟨hs,hp⟩ := h.strangers n hn
      have he : e.position ≠ n := by
        rintro rfl
        simp [hfound] at hp
      simp [hnew,hnum,he,hs,hp]

theorem run {a : Allocator} (h : Tracks start ms a.manager.pool) {cs : List Call}
    (hcs : ∀ c ∈ cs, c.isIntake = false) :
    Tracks start (ms ++ a.moments cs) (a.run cs).2.manager.pool := by
  induction cs generalizing a ms with
  | nil => simpa [Allocator.moments,Allocator.run] using h
  | cons c cs ih =>
    obtain ⟨hc,hcs⟩ := List.forall_mem_cons.mp hcs
    have hstep := moment (m := ⟨a,c⟩) h hc
    simpa [Allocator.moments,Allocator.run,Moment.left] using ih hstep hcs

/-- An entry of the pool was there at the start, and is alive. -/
theorem of_mem {p : Pool} {e : Entry} (h : Tracks start ms p) (he : e ∈ p.entries) :
    ∃ first, start.numbered e.position = some first ∧
      Life first (servingsOf e.position ms) (some e) := by
  have hn := (Pool.numbered_eq_some_iff h.distinct).mpr ⟨he,rfl⟩
  cases hs : start.numbered e.position with
  | none => simp [(h.strangers _ hs).2] at hn
  | some first =>
    have hlife := h.lives _ _ hs
    rw [hn] at hlife
    exact ⟨first,rfl,hlife⟩

/-- The run of a batch, from its intake on. -/
theorem ofBatch (a : Allocator) (batch : List Offer) {cs : List Call}
    (hcs : ∀ c ∈ cs, c.isIntake = false) :
    Tracks (a.manager.pool.replace batch) ((a.step (.offers batch)).2.moments cs)
      ((a.step (.offers batch)).2.run cs).2.manager.pool := by
  have hstart := refl (Pool.replace_distinct a.manager.pool batch)
  simpa using hstart.run (a := (a.step (.offers batch)).2) hcs

section Batch

variable {p p' : Pool} {batch : List Offer}

/-- An entry of the pool comes from the batch, under the number that it had there. -/
theorem offer_of_mem {e : Entry} (h : Tracks (p.replace batch) ms p') (he : e ∈ p'.entries) :
    ∃ k o, batch[k]? = some o ∧ e.position = p.taken + k ∧
      Life (.ofOffer e.position o) (servingsOf e.position ms) (some e) := by
  obtain ⟨first,hstart,hlife⟩ := h.of_mem he
  obtain ⟨k,o,ho,hk,rfl⟩ := (Pool.numbered_replace p batch _ _).mp hstart
  exact ⟨k,o,ho,hk,hlife⟩

theorem life_of_batch (h : Tracks (p.replace batch) ms p') {k : Nat} (hk : k < batch.length) :
    Life (.ofOffer (p.taken + k) batch[k]) (servingsOf (p.taken + k) ms)
      (p'.numbered (p.taken + k)) :=
  h.lives _ _ ((Pool.numbered_replace p batch _ _).mpr ⟨k,batch[k],by simp,rfl,rfl⟩)

end Batch

end Tracks
end OfferAllocation
