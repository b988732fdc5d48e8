import OfferAllocation.Proofs.Life

/-! What becomes of a batch. After any run each offer of the last batch is either still to be
declined, or has been given to a task, and the state of an entry tells exactly what it has been
given to. -/
namespace OfferAllocation

/-- The books on a batch whose first offer has the number `first`: where its offers are when `given`
lists the numbers that tasks have been given. -/
structure Accounted (first : Nat) (batch : List Offer) (given : List Nat) (m : Manager) :
    Prop where
  distinct : (m.pool.entries.map Entry.position).Nodup
  fromBatch : ∀ e ∈ m.pool.entries, ∃ k, e.position = first + k ∧ batch[k]? = some e.offer
  declinable_nodup : (m.declinable.map Entry.position).Nodup
  mem_declinable_iff : ∀ n, n ∈ m.declinable.map Entry.position ↔
    (∃ k < batch.length, n = first + k) ∧ n ∉ given
  given_of_removed : ∀ k < batch.length, first + k ∉ m.pool.entries.map Entry.position →
    first + k ∈ given
  given_fromBatch : ∀ n ∈ given, ∃ k < batch.length, n = first + k

section Batch

variable {p : Pool} {batch : List Offer} {ms : List Moment} {m : Manager}

/-- An entry may be declined as long as nothing has been served from it. -/
theorem Tracks.mem_declinable_iff (h : Tracks (p.replace batch) ms m.pool) (n : Nat) :
    n ∈ m.declinable.map Entry.position ↔
      (∃ k < batch.length, n = p.taken + k) ∧ servingsOf n ms = [] := by
  simp only [Manager.declinable,Pool.declinable,List.mem_map,List.mem_filter]
  constructor
  · rintro ⟨e,⟨he,ha⟩,rfl⟩
    obtain ⟨k,o,ho,hk,hlife⟩ := h.offer_of_mem he
    refine ⟨⟨k,(List.getElem?_eq_some_iff.mp ho).1,hk⟩,?_⟩
    by_contra hs
    simp [(hlife.accepted_iff rfl).mpr hs] at ha
  · rintro ⟨⟨k,hk,rfl⟩,hs⟩
    have hlife := h.life_of_batch hk
    rw [hs] at hlife
    have hmem := (Pool.numbered_eq_some_iff h.distinct).mp hlife.of_nil
    exact ⟨_,⟨hmem.1,rfl⟩,rfl⟩

theorem Tracks.accounted (h : Tracks (p.replace batch) ms m.pool) {given : List Nat}
    (hgiven : ∀ n, n ∈ given ↔ servingsOf n ms ≠ []) :
    Accounted p.taken batch given m where
  distinct := h.distinct
  fromBatch := by
    intro e he
    obtain ⟨k,o,ho,hk,hlife⟩ := h.offer_of_mem he
    exact ⟨k,hk,by rw [ho,hlife.offer,Entry.ofOffer_offer]⟩
  declinable_nodup := (List.filter_sublist.map _).nodup h.distinct
  mem_declinable_iff := by
    intro n
    rw [h.mem_declinable_iff,hgiven,not_not]
  given_of_removed := by
    intro k hk hremoved
    rw [hgiven]
    intro hs
    have hlife := h.life_of_batch hk
    rw [Pool.numbered_eq_none_iff.mpr hremoved,hs] at hlife
    cases hlife.of_nil
  given_fromBatch := by
    intro n hn
    rw [hgiven] at hn
    cases hstart : (p.replace batch).numbered n with
    | none => exact absurd (h.strangers n hstart).1 hn
    | some first =>
      obtain ⟨k,o,ho,rfl,-⟩ := (Pool.numbered_replace p batch _ _).mp hstart
      exact ⟨k,(List.getElem?_eq_some_iff.mp ho).1,rfl⟩

end Batch

/-- After a batch and any calls that take nothing in, no offer is lost, doubled, both given and
declined, or carried over from an earlier batch. -/
theorem batch_accounted (a : Allocator) (batch : List Offer) (cs : List Call)
    (hcs : ∀ c ∈ cs, c.isIntake = false) :
    let start := (a.step (.offers batch)).2
    Accounted a.manager.pool.taken batch ((start.run cs).1.filterMap Report.given?)
      (start.run cs).2.manager := by
  intro start
  have htracks := Tracks.ofBatch a batch hcs
  exact htracks.accounted fun n => Allocator.mem_given_iff

theorem batch_accounted_second_batch :
    let task (name : String) (cpu mem : Float) := Task.named name [.cpus cpu,.mem mem]
    let offer (id : String) (cpu mem : Float) : Offer := { id, resources := [.cpus cpu,.mem mem] }
    let batch := [offer "o1" 1 128,offer "o2" 4 4096,offer "o3" 1 128]
    let cs : List Call := [.register (task "t1" 1 512) [⟨"strategy",["mux"]⟩],
      .assign (task "t1" 1 512),.assign (task "t2" 8 128),.clear (task "t1" 1 512),
      .assign (task "t1" 1 512)]
    let a := ((Allocator.mk .empty (.ofConfig {})).step (.offers [offer "o0" 1 128])).2
    (∀ c ∈ cs, c.isIntake = false) ∧
      Accounted 1 batch [2,2] ((a.step (.offers batch)).2.run cs).2.manager := by
  intro task offer batch cs a
  have hcs : ∀ c ∈ cs, c.isIntake = false := by decide
  have hgiven : ((a.step (.offers batch)).2.run cs).1.filterMap Report.given? = [2,2] := by
    decide +kernel
  have h := batch_accounted a batch cs hcs
  simp only [hgiven] at h
  exact ⟨hcs,h⟩

/-- What an entry shows of the tasks that its offer was given to, in order: everything that it holds
follows from them and from the offer. -/
structure Reflects (ts : List Task) (e : Entry) : Prop where
  accepted : e.accepted = true ↔ ts ≠ []
  cpu : e.cpu = debited Demand.cpu (Entry.ofOffer e.position e.offer).cpu ts
  mem : e.mem = debited Demand.mem (Entry.ofOffer e.position e.offer).mem ts
  cpu_nonneg : ∀ us, us ≠ [] → us <+: ts →
    debited Demand.cpu (Entry.ofOffer e.position e.offer).cpu us ≥ 0
  mem_nonneg : ∀ us, us ≠ [] → us <+: ts →
    debited Demand.mem (Entry.ofOffer e.position e.offer).mem us ≥ 0
  disk : e.disk = (lastDiskOf ts).or (Entry.ofOffer e.position e.offer).disk
  untouched : ts = [] → e = Entry.ofOffer e.position e.offer
  not_exhausted : ts ≠ [] → (e.cpu == 0) = false ∧ (e.mem == 0) = false

theorem Life.reflects {n : Nat} {o : Offer} {ss : List Serving} {e : Entry}
    (h : Life (.ofOffer n o) ss (some e)) : Reflects (ss.map Serving.task) e := by
  have he := h.eq_after e rfl
  have hpos : e.position = n := by rw [he,Entry.after_position,Entry.ofOffer_position]
  have hoffer : e.offer = o := h.offer
  subst hpos hoffer
  have hts : ss.map Serving.task ≠ [] ↔ ss ≠ [] := by simp
  constructor
  · rw [h.accepted_iff rfl,hts]
  · exact (congrArg Entry.cpu he).trans (Entry.after_cpu _ _)
  · exact (congrArg Entry.mem he).trans (Entry.after_mem _ _)
  · intro us hus hp
    rw [← Entry.after_cpu]
    exact (h.amounts_nonneg hus hp).1
  · intro us hus hp
    rw [← Entry.after_mem]
    exact (h.amounts_nonneg hus hp).2
  · exact (congrArg Entry.disk he).trans (Entry.after_disk _ _)
  · intro hnil
    rwa [hnil] at he
  · exact fun hne => h.not_exhausted (hts.mp hne)

/-- A pool that was empty at the start is empty, or its entries come from the last intake. -/
theorem Allocator.run_since_intake {a : Allocator} (ha : a.manager.pool.entries = [])
    (cs : List Call) {e : Entry} (he : e ∈ (a.run cs).2.manager.pool.entries) :
    ∃ o, Life (.ofOffer e.position o) (servingsOf e.position (sinceIntake (a.moments cs)))
      (some e) := by
  obtain hnone | ⟨pre,os,post,rfl,hpost⟩ := exists_last_intake cs
  · have hstart : a.manager.pool.Distinct := by simp [Pool.Distinct,ha]
    have htracks := (Tracks.refl hstart).run hnone
    obtain ⟨first,hfirst,-⟩ := htracks.of_mem he
    simp [Pool.numbered,ha] at hfirst
  · have htracks := Tracks.ofBatch (a.run pre).2 os hpost
    rw [run_append] at he
    obtain ⟨k,o,-,-,hlife⟩ := htracks.offer_of_mem he
    rw [moments_append,moments,
      sinceIntake_append rfl fun m hm => isIntake_of_mem_moments hpost hm]
    exact ⟨o,hlife⟩

/-- In every state that a manager can reach, whatever the registry was like and whatever becomes of
it, each entry of the pool reflects the tasks that were served from it since the last intake. -/
theorem entry_reflects_history (r : Registry) (c : Config) (cs : List Call) :
    let a := Allocator.mk r (.ofConfig c)
    ∀ e ∈ (a.run cs).2.manager.pool.entries,
      Reflects ((servingsOf e.position (sinceIntake (a.moments cs))).map Serving.task) e := by
  intro a e he
  obtain ⟨o,hlife⟩ := Allocator.run_since_intake rfl cs he
  exact hlife.reflects

theorem entry_reflects_history_of_shared :
    let task (name : String) (cpu mem : Float) := Task.named name [.cpus cpu,.mem mem]
    let offer (id : String) (cpu mem : Float) : Offer := { id, resources := [.cpus cpu,.mem mem] }
    let a := Allocator.mk .empty (.ofConfig {})
    let cs : List Call := [.register (task "t1" 1 512) [⟨"strategy",["mux"]⟩],
      .offers [offer "o1" 1 128,offer "o2" 4 4096],.assign (task "t1" 1 512),
      .assign (task "t2" 8 128),.assign (task "t1" 1 512)]
    (servingsOf 1 (sinceIntake (a.moments cs))).length = 2 ∧
      ∃ e ∈ (a.run cs).2.manager.pool.entries, e.position = 1 ∧ e.cpu = 2 ∧
        Reflects ((servingsOf e.position (sinceIntake (a.moments cs))).map Serving.task) e := by
  intro task offer a cs
  have htwice : (servingsOf 1 (sinceIntake (a.moments cs))).length = 2 := by decide +kernel
  have hpool : (a.run cs).2.manager.pool.entries.map (fun e => (e.position,e.cpu)) =
      [(0,1),(1,2)] := by
    decide +kernel
  have hmem : (1,2) ∈ (a.run cs).2.manager.pool.entries.map fun e => (e.position,e.cpu) := by
    rw [hpool]
    exact List.mem_cons_of_mem _ List.mem_cons_self
  obtain ⟨e,he,heq⟩ := List.mem_map.mp hmem
  obtain ⟨hpos,hcpu⟩ := Prod.mk.inj heq
  exact ⟨htwice,e,he,hpos,hcpu,entry_reflects_history .empty {} cs e he⟩

end OfferAllocation
