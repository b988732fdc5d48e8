import OfferAllocation.Proofs.FirstFit

/-! Withdrawals. A call for the entry at an index gives that entry and closes the gap, or it fails and
changes nothing. Either way the entries that were withdrawn and those that are left are together the
ones that there were before, and so it is after any sequence of calls. -/
namespace OfferAllocation
namespace Pool

open scoped List

/-- The entry at an index is withdrawn: what stood there is given, the index is closed up, and nothing
else is lost, neither of the entries nor of those that may be declined. -/
structure Withdrawn (p : Pool) (i : Nat) (e : Entry) (q : Pool) : Prop where
  entry : p.get? i = some e
  closed : Allocator.ClosedUp i p.entries q.entries
  taken : q.taken = p.taken
  perm : e :: q.entries ~ p.entries
  declinable : (if e.accepted then q.declinable else e :: q.declinable) ~ p.declinable

/-- The two ways in which a call for the entry at an index ends. -/
inductive Withdrawal (p : Pool) (i : Nat) : Option Entry × Pool → Prop
  | failed (outside : p.size ≤ i) : Withdrawal p i (none,p)
  | given {e : Entry} {q : Pool} (inside : i < p.size) (withdrawn : Withdrawn p i e q) :
    Withdrawal p i (some e,q)

section Withdraw

variable {p : Pool} {i : Nat} {e : Entry}

theorem withdraw_of_size_le (h : p.size ≤ i) : p.withdraw i = (none,p) := by
  have hget : p.get? i = none := List.getElem?_eq_none h
  simp [withdraw,remove?,hget]

theorem withdraw_of_get? (h : p.get? i = some e) : p.withdraw i = (some e,p.drop i) := by
  simp [withdraw,remove?,h]

theorem lt_size_of_get? (h : p.get? i = some e) : i < p.size :=
  (List.getElem?_eq_some_iff.mp h).1

/-- All that a call for the entry at an index can do. -/
theorem withdraw_cases (p : Pool) (i : Nat) :
    (p.size ≤ i ∧ p.withdraw i = (none,p)) ∨
      ∃ e, p.get? i = some e ∧ p.withdraw i = (some e,p.drop i) := by
  obtain hin | hout := Nat.lt_or_ge i p.size
  · have hget : p.get? i = some _ := List.getElem?_eq_getElem hin
    exact .inr ⟨_,hget,withdraw_of_get? hget⟩
  · exact .inl ⟨hout,withdraw_of_size_le hout⟩

/-- Of the entries that may be declined, a removal takes out at most the one that it gives. -/
theorem declinable_drop_perm (h : p.get? i = some e) :
    (if e.accepted then (p.drop i).declinable else e :: (p.drop i).declinable) ~ p.declinable := by
  have hperm := (drop_perm h).filter fun e => !e.accepted
  cases ha : e.accepted <;> simpa [declinable,ha] using hperm

theorem withdrawn_drop (h : p.get? i = some e) : Withdrawn p i e (p.drop i) where
  entry := h
  closed := (Allocator.closedUp_iff (lt_size_of_get? h)).mpr rfl
  taken := drop_taken
  perm := drop_perm h
  declinable := declinable_drop_perm h

/-- How an index is closed up leaves no choice. -/
theorem Withdrawn.eq_drop {q : Pool} (h : Withdrawn p i e q) : q = p.drop i := by
  have hentries := (Allocator.closedUp_iff (lt_size_of_get? h.entry)).mp h.closed
  exact Pool.ext (by rw [h.taken,drop_taken]) hentries

theorem withdrawal_iff {out : Option Entry × Pool} : Withdrawal p i out ↔ p.withdraw i = out := by
  constructor
  · intro h
    cases h with
    | failed hout => exact withdraw_of_size_le hout
    | given hin hdone => rw [withdraw_of_get? hdone.entry,hdone.eq_drop]
  · rintro rfl
    obtain ⟨hout,heq⟩ | ⟨e,hget,heq⟩ := withdraw_cases p i
    · rw [heq]
      exact .failed hout
    · rw [heq]
      exact .given (lt_size_of_get? hget) (withdrawn_drop hget)

/-- One call moves at most one entry out of the pool, and that one into its answer. -/
theorem withdraw_perm (p : Pool) (i : Nat) :
    (p.withdraw i).1.toList ++ (p.withdraw i).2.entries ~ p.entries := by
  obtain ⟨-,heq⟩ | ⟨e,hget,heq⟩ := withdraw_cases p i
  · simp [heq]
  · simpa [heq] using drop_perm hget

/-- The entries that a sequence of calls has given are together with those that are left the ones
that there were before. -/
theorem withdrawEach_perm (p : Pool) (is : List Nat) :
    (p.withdrawEach is).1.filterMap id ++ (p.withdrawEach is).2.entries ~ p.entries := by
  induction is generalizing p with
  | nil => simp [withdrawEach]
  | cons i is ih =>
    have hstep := withdraw_perm p i
    have hrest := ih (p.withdraw i).2
    have hanswers : (p.withdrawEach (i :: is)).1.filterMap id = (p.withdraw i).1.toList ++
        ((p.withdraw i).2.withdrawEach is).1.filterMap id := by
      cases hx : (p.withdraw i).1 <;> simp [withdrawEach,hx]
    rw [hanswers,List.append_assoc]
    exact (hrest.append_left _).trans hstep

-- The last of three moves to the front and is the next to go; the call in between fails.
example :
    let p := Pool.empty.replace [{ id := "o1" },{ id := "o2" },{ id := "o3" }]
    (p.withdrawEach [0,5,0]).1.map (Option.map Entry.position) = [some 0,none,some 2] ∧
      (p.withdrawEach [0,5,0]).2.entries.map Entry.position = [1] := by
  decide +kernel

end Withdraw

/-- The entries of a batch, each with its number: those that were withdrawn and those that are left
make up the batch as it was taken in, and each number is met once. -/
structure SplitUp (first : Nat) (batch : List Offer) (withdrawn left : List Entry) : Prop where
  perm : withdrawn ++ left ~ batch.mapIdx fun k o => Entry.ofOffer (first + k) o
  once : ∀ k < batch.length, ((withdrawn ++ left).map Entry.position).count (first + k) = 1

theorem intake_eq_mapIdx (n : Nat) (os : List Offer) :
    intake n os = os.mapIdx fun k o => Entry.ofOffer (n + k) o := by
  apply List.ext_getElem?
  intro k
  rw [intake_getElem?,List.getElem?_mapIdx]

theorem splitUp_of_perm {first : Nat} {batch : List Offer} {withdrawn left : List Entry}
    (h : withdrawn ++ left ~ intake first batch) : SplitUp first batch withdrawn left where
  perm := intake_eq_mapIdx first batch ▸ h
  once := by
    intro k hk
    have hmem : first + k ∈ List.range' first batch.length := by
      rw [List.mem_range'_1]
      omega
    rw [(h.map Entry.position).count_eq,intake_position]
    exact List.count_eq_one_of_mem List.nodup_range' hmem

/-- A call for the entry at an index ends in exactly one of two ways. Whatever is called for after an
intake, each entry of the batch either has been given, once, or is still there as it was taken in. -/
theorem withdrawals_split_batch (p : Pool) :
    (∀ i out, Withdrawal p i out ↔ p.withdraw i = out) ∧
      ∀ batch is, SplitUp p.taken batch (((p.replace batch).withdrawEach is).1.filterMap id)
        ((p.replace batch).withdrawEach is).2.entries := by
  constructor
  · intro i out
    exact withdrawal_iff
  · intro batch is
    exact splitUp_of_perm (withdrawEach_perm (p.replace batch) is)

end Pool
end OfferAllocation
