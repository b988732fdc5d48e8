import OfferAllocation.Proofs.Life

/-! Retention. An offer stays in the pool exactly as long as every task shared it; once it was given
without being shared, or was used up on an axis, it is not given again before the next intake. -/
namespace OfferAllocation

/-- How long the offer with a number is retained in a run that takes nothing in. -/
structure Retention (n : Nat) (ms : List Moment) (p : Pool) : Prop where
  shared_before_last : ∀ s ∈ (servingsOf n ms).dropLast, s.Shared
  pooled_iff : n ∈ p.entries.map Entry.position ↔
    servingsOf n ms = [] ∨ ∃ s, (servingsOf n ms).getLast? = some s ∧ s.Shared
  never_again : ∀ before m after s, ms = before ++ m :: after → m.serving? = some s →
    s.entry.position = n → ¬ s.Shared → servingsOf n after = []

theorem Life.retention {n : Nat} {first : Entry} {ms : List Moment} {p : Pool}
    (h : Life first (servingsOf n ms) (p.numbered n)) : Retention n ms p where
  shared_before_last := h.shared_of_mem_dropLast
  pooled_iff := by
    have hsome : n ∈ p.entries.map Entry.position ↔ (p.numbered n).isSome := by
      rw [Option.isSome_iff_ne_none,Ne,Pool.numbered_eq_none_iff,not_not]
    rw [hsome,h.isSome_iff]
    cases hl : (servingsOf n ms).getLast? with
    | none => simp [List.getLast?_eq_none_iff.mp hl]
    | some s =>
      have hne : servingsOf n ms ≠ [] := by
        intro hnil
        simp [hnil] at hl
      simp [hne]
  never_again := by
    rintro before m after s rfl hm rfl hspent
    have hsplit : servingsOf s.entry.position (before ++ m :: after) =
        servingsOf s.entry.position before ++ s :: servingsOf s.entry.position after := by
      simp [servingsOf,servings,hm]
    by_contra hafter
    refine hspent (h.shared_of_mem_dropLast s ?_)
    rw [hsplit,List.dropLast_append_of_ne_nil (by simp),List.dropLast_cons_of_ne_nil hafter]
    simp

/-- Where every task keeps its offer to itself, no offer is given twice. -/
theorem Tracks.given_nodup {start p : Pool} {a : Allocator} {cs : List Call}
    (h : Tracks start (a.moments cs) p)
    (hown : ∀ s ∈ servings (a.moments cs), s.strategy ≠ .mux) :
    ((a.run cs).1.filterMap Report.given?).Nodup := by
  rw [Allocator.run_given,List.nodup_iff_count_le_one]
  intro n
  have hcount : ((servings (a.moments cs)).map fun s => s.entry.position).count n =
      (servingsOf n (a.moments cs)).length := by
    simp [List.count,List.countP_eq_length_filter,List.filter_map,servingsOf,Function.comp_def]
  rw [hcount]
  cases hstart : start.numbered n with
  | none => simp [(h.strangers n hstart).1]
  | some first =>
    have hshared := (h.lives n first hstart).shared_of_mem_dropLast
    have hnil : (servingsOf n (a.moments cs)).dropLast = [] := by
      apply List.eq_nil_iff_forall_not_mem.mpr
      intro s hs
      have hmem := (List.mem_filter.mp (List.dropLast_subset _ hs)).1
      exact hown s hmem (hshared s hs).1
    have hlen : (servingsOf n (a.moments cs)).dropLast.length =
        (servingsOf n (a.moments cs)).length - 1 := List.length_dropLast
    rw [hnil,List.length_nil] at hlen
    omega

/-- The retention of a batch, whatever is registered or cleared between the calls. -/
theorem batch_retention (a : Allocator) (batch : List Offer) (cs : List Call)
    (hcs : ∀ c ∈ cs, c.isIntake = false) :
    let start := (a.step (.offers batch)).2
    (∀ k < batch.length,
      Retention (a.manager.pool.taken + k) (start.moments cs) (start.run cs).2.manager.pool) ∧
    ((∀ m ∈ start.moments cs, m.strategy? ≠ some .mux) →
      ((start.run cs).1.filterMap Report.given?).Nodup) := by
  intro start
  have htracks := Tracks.ofBatch a batch hcs
  constructor
  · intro k hk
    exact (htracks.life_of_batch hk).retention
  · intro hown
    refine htracks.given_nodup fun s hs hmux => ?_
    obtain ⟨m,hm,hserving⟩ := List.mem_filterMap.mp hs
    apply hown m hm
    rw [Moment.strategy?_of_serving? hserving,hmux]

theorem batch_retention_shared_and_own :
    let task (name : String) (cpu mem : Float) := Task.named name [.cpus cpu,.mem mem]
    let offer (id : String) (cpu mem : Float) : Offer := { id, resources := [.cpus cpu,.mem mem] }
    let a := Allocator.mk .empty (.ofConfig {})
    let batch := [offer "o1" 4 4096,offer "o2" 1 128]
    let start := (a.step (.offers batch)).2
    let shared : List Call := [.register (task "t1" 1 512) [⟨"strategy",["mux"]⟩],
      .assign (task "t1" 1 512),.assign (task "t2" 1 512),.assign (task "t1" 1 512)]
    let own : List Call := [.assign (task "t1" 1 512),.assign (task "t1" 1 128)]
    (start.run shared).1.filterMap Report.given? = [0,0] ∧
      Retention 0 (start.moments shared) (start.run shared).2.manager.pool ∧
      (start.run own).1.filterMap Report.given? = [0,1] ∧
      ((start.run own).1.filterMap Report.given?).Nodup := by
  intro task offer a batch start shared own
  have hshared : ∀ c ∈ shared, c.isIntake = false := by decide
  have hown : ∀ c ∈ own, c.isIntake = false := by decide
  have hnonMux : ∀ m ∈ start.moments own, m.strategy? ≠ some .mux := by decide +kernel
  refine ⟨by decide +kernel,?_,by decide +kernel,?_⟩
  · exact (batch_retention a batch shared hshared).1 0 (by decide)
  · exact (batch_retention a batch own hown).2 hnonMux

end OfferAllocation
