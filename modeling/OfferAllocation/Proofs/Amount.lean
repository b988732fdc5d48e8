import OfferAllocation.Proofs.Double

/-! Amounts are doubles. Their differences are rounded, but rounding keeps to the order: what is left
after a debit is at most what there was, and whatever fits in what is left would have fitted before. -/
namespace OfferAllocation
namespace Amount

open Float.Model Float.Model.UnpackedFloat

/-- The difference of two doubles, as a double. -/
def diff (a b : UnpackedFloat) : UnpackedFloat := stored (UnpackedFloat.sub .binary64 a b)

/-- At an exponent that is at most its own, the mantissa of a number measures the number. -/
theorem units_finite_of_le (s : Sign) {m : Nat} {e e' : Int} (hm : 0 < m) (hle : e' ≤ e)
    (hleast : -1074 ≤ e') :
    units (.finite s m e hm) = s.apply (m <<< (e - e').toNat : Nat) * 2 ^ (e' + 1074).toNat := by
  have hexp : (e + 1074).toNat = (e - e').toNat + (e' + 1074).toNat := by omega
  rw [units,hexp,Nat.shiftLeft_eq,Nat.pow_add,← Nat.mul_assoc]
  cases s <;> simp [Sign.apply]

theorem diff_finite {a b : UnpackedFloat} (ha : Double a) (hb : Double b)
    (hfa : a.isFinite = true) (hfb : b.isFinite = true) :
    (diff a b).isNaN = false ∧ RoundsTo (units (diff a b)) (units a - units b) := by
  obtain ⟨s,rfl⟩ | ⟨s,m,e,hm,rfl,h,he⟩ := ha.finite_cases hfa
  · obtain ⟨s',rfl⟩ | ⟨s',m,e,hm,rfl,h,he⟩ := hb.finite_cases hfb
    · have hdiff : diff (.zero s) (.zero s') = .zero s ∨
          diff (.zero s) (.zero s') = .zero .positive := by
        simp only [diff,UnpackedFloat.sub]
        split_ifs <;> simp
      obtain h | h := hdiff <;> rw [h] <;> exact ⟨rfl,.refl⟩
    · have hdiff : diff (.zero s) (.finite s' m e hm) = .finite (-s') m e hm :=
        stored_eq_self (.finite (-s') hm h he)
      rw [hdiff,units_neg_finite,units,zero_sub]
      exact ⟨rfl,.refl⟩
  · obtain ⟨s',rfl⟩ | ⟨s',m',e',hm',rfl,h',he'⟩ := hb.finite_cases hfb
    · have hdiff : diff (.finite s m e hm) (.zero s') = .finite s m e hm :=
        stored_eq_self (.finite s hm h he)
      rw [hdiff,units.eq_def (.zero s'),sub_zero]
      exact ⟨rfl,.refl⟩
    · -- Both mantissas are brought to the smaller exponent, and their difference is rounded.
      have hleast : -1074 ≤ min e e' := le_min h.least h'.least
      rw [units_finite_of_le s hm (min_le_left e e') hleast,
        units_finite_of_le s' hm' (min_le_right e e') hleast,← Int.sub_mul]
      exact normalize_units _ hleast

/-! Unless both operands are finite, what they are decides the difference. -/

theorem double_kinds (u : UnpackedFloat) :
    u = .notANumber ∨ (∃ s, u = .infinity s) ∨ u.isFinite = true := by
  cases u <;> simp [UnpackedFloat.isFinite]

@[simp] theorem isNaN_notANumber : UnpackedFloat.isNaN .notANumber = true := rfl

@[simp] theorem isNaN_infinity (s : Sign) : (UnpackedFloat.infinity s).isNaN = false := rfl

@[simp] theorem isFinite_infinity (s : Sign) : (UnpackedFloat.infinity s).isFinite = false := rfl

theorem isNaN_of_isFinite {u : UnpackedFloat} (h : u.isFinite = true) : u.isNaN = false := by
  cases u <;> first | rfl | contradiction

@[simp] theorem diff_notANumber_left (b : UnpackedFloat) : diff .notANumber b = .notANumber :=
  stored_notANumber

@[simp] theorem diff_notANumber_right (a : UnpackedFloat) : diff a .notANumber = .notANumber := by
  cases a <;> exact stored_notANumber

theorem diff_infinity_same (s : Sign) : diff (.infinity s) (.infinity s) = .notANumber := by
  cases s <;> exact stored_notANumber

theorem diff_infinity_neg (s : Sign) : diff (.infinity s) (.infinity (-s)) = .infinity s := by
  cases s <;> exact stored_infinity _

theorem diff_infinity_left (s : Sign) {b : UnpackedFloat} (hb : b.isFinite = true) :
    diff (.infinity s) b = .infinity s := by
  cases b <;> first | contradiction | exact stored_infinity s

theorem diff_infinity_right (s : Sign) {a : UnpackedFloat} (ha : a.isFinite = true) :
    diff a (.infinity s) = .infinity (-s) := by
  cases a <;> first | contradiction | exact stored_infinity (-s)

/-- What can be taken from an amount is what is at most the amount. -/
theorem nonneg_diff_iff {a b : UnpackedFloat} (ha : Double a) (hb : Double b) :
    (diff a b).isNaN = false ∧ 0 ≤ units (diff a b) ↔ a.isNaN = false ∧ b.isNaN = false ∧
      (units b < units a ∨ units b = units a ∧ b.isFinite = true) := by
  obtain rfl | ⟨s,rfl⟩ | hfa := double_kinds a
  · simp
  · have hs := natAbs_units_infinity s
    obtain rfl | ⟨s',rfl⟩ | hfb := double_kinds b
    · simp
    · obtain rfl | rfl := sign_cases s s'
      · simp [diff_infinity_same]
      · have htop := top_pos
        rw [diff_infinity_neg,units_neg_infinity]
        simp only [isNaN_infinity,isFinite_infinity,true_and,Bool.false_eq_true,and_false,or_false]
        omega
    · have hltb := natAbs_units_lt hb hfb
      rw [diff_infinity_left s hfb]
      simp only [isNaN_infinity,isNaN_of_isFinite hfb,hfb,true_and,and_true]
      omega
  · have hlta := natAbs_units_lt ha hfa
    have hna := isNaN_of_isFinite hfa
    obtain rfl | ⟨s,rfl⟩ | hfb := double_kinds b
    · simp
    · have hs := natAbs_units_infinity s
      rw [diff_infinity_right s hfa,units_neg_infinity]
      simp only [isNaN_infinity,hna,isFinite_infinity,true_and,Bool.false_eq_true,and_false,or_false]
      omega
    · obtain ⟨hnan,hrounds⟩ := diff_finite ha hb hfa hfb
      simp only [hnan,hrounds.nonneg_iff,hna,isNaN_of_isFinite hfb,hfb,true_and,and_true]
      omega

/-- A debit moves an amount down, or up if it is negative. -/
theorem units_diff_sides {a d : UnpackedFloat} (ha : Double a) (hd : Double d)
    (hnan : (diff a d).isNaN = false) :
    (0 ≤ units d → units (diff a d) ≤ units a) ∧ (units d ≤ 0 → units a ≤ units (diff a d)) := by
  have htop := top_pos
  obtain rfl | ⟨s,rfl⟩ | hfa := double_kinds a
  · simp at hnan
  · obtain rfl | ⟨s',rfl⟩ | hfd := double_kinds d
    · simp at hnan
    · obtain rfl | rfl := sign_cases s s'
      · simp [diff_infinity_same] at hnan
      · rw [diff_infinity_neg]
        exact ⟨fun _ => le_rfl,fun _ => le_rfl⟩
    · rw [diff_infinity_left s hfd]
      exact ⟨fun _ => le_rfl,fun _ => le_rfl⟩
  · have hlta := natAbs_units_lt ha hfa
    obtain rfl | ⟨s,rfl⟩ | hfd := double_kinds d
    · simp at hnan
    · have hs := natAbs_units_infinity s
      rw [diff_infinity_right s hfa,units_neg_infinity]
      omega
    · have hrounds := (diff_finite ha hd hfa hfd).2 _ (measured_units ha)
      exact ⟨fun _ => hrounds.2 (by omega),fun _ => hrounds.1 (by omega)⟩

theorem isNaN_of_diff {a b : UnpackedFloat} (h : (diff a b).isNaN = false) : a.isNaN = false := by
  cases a <;> first | rfl | simp at h

/-! Amounts as they are read. -/

/-- What is read of a number. -/
def read (x : Float) : UnpackedFloat := x.toModel.unpack

variable {x d e : Float}

theorem double_read (x : Float) : Double (read x) := double_unpack _

theorem isNaN_read_zero : (read 0).isNaN = false := rfl

theorem units_read_zero : units (read 0) = 0 := rfl

theorem read_sub (x d : Float) : read (x - d) = diff (read x) (read d) := rfl

/-- Only numbers have a place in the order. -/
theorem compare_read_eq_some_iff {o : Ordering} : (read x).compare (read d) = some o ↔
    (read x).isNaN = false ∧ (read d).isNaN = false ∧
      compare (units (read x)) (units (read d)) = o := by
  by_cases h : (read x).isNaN = false ∧ (read d).isNaN = false
  · rw [compare_units (double_read x) (double_read d) h.1 h.2]
    simp [h]
  · have hnone : (read x).compare (read d) = none := by
      cases hx : read x <;> cases hd : read d <;>
        simp_all [UnpackedFloat.isNaN,UnpackedFloat.compare]
    simp only [hnone,← and_assoc,h,false_and,reduceCtorEq]

theorem lt_iff : x < d ↔
    (read x).isNaN = false ∧ (read d).isNaN = false ∧ units (read x) < units (read d) := by
  have h : x < d ↔ decide (x.toModel < d.toModel) = true := Iff.rfl
  rw [h,decide_eq_true_iff,← compare_lt_iff_lt,← compare_read_eq_some_iff]
  exact beq_iff_eq

theorem beq_iff : (x == d) = true ↔
    (read x).isNaN = false ∧ (read d).isNaN = false ∧ units (read x) = units (read d) := by
  have h : (x == d) = ((read x).compare (read d) == some .eq) := rfl
  rw [h,beq_iff_eq,compare_read_eq_some_iff,compare_eq_iff_eq]

theorem le_iff : x ≤ d ↔
    (read x).isNaN = false ∧ (read d).isNaN = false ∧ units (read x) ≤ units (read d) := by
  have h : x ≤ d ↔ decide (x.toModel ≤ d.toModel) = true := Iff.rfl
  have hle : ((read x).compare (read d)).any Ordering.isLE = true ↔
      (read x).compare (read d) = some .lt ∨ (read x).compare (read d) = some .eq := by
    cases (read x).compare (read d) with
    | none => simp
    | some o => cases o <;> simp
  rw [h,decide_eq_true_iff]
  refine Iff.trans hle ?_
  rw [compare_read_eq_some_iff,compare_read_eq_some_iff,compare_lt_iff_lt,compare_eq_iff_eq,
    le_iff_lt_or_eq]
  tauto

/-- Not below zero means a measure that is not below zero. -/
theorem nonneg_iff : x ≥ 0 ↔ (read x).isNaN = false ∧ 0 ≤ units (read x) := by
  rw [ge_iff_le,le_iff,units_read_zero]
  simp only [isNaN_read_zero,true_and]

/-- What fits in what a debit has left would have fitted before. -/
theorem sub_nonneg_of_sub_sub {x d e : Float} (hd : d ≥ 0) (h : x - d - e ≥ 0) : x - e ≥ 0 := by
  have hx := double_read x
  have he := double_read e
  have hdd := double_read d
  rw [nonneg_iff,read_sub,nonneg_diff_iff (double_read _) he,read_sub] at h
  rw [nonneg_iff,read_sub,nonneg_diff_iff hx he]
  obtain ⟨hnan,hne,hle⟩ := h
  have hless := (units_diff_sides hx hdd hnan).1 (nonneg_iff.mp hd).2
  refine ⟨isNaN_of_diff hnan,hne,?_⟩
  rcases hle with hlt | ⟨heq,hfin⟩
  · exact .inl (by omega)
  · rcases (heq.le.trans hless).lt_or_eq with hlt | heq'
    · exact .inl hlt
    · exact .inr ⟨heq',hfin⟩

/-- A debit that can be made is in truth a credit if the demand is below zero, unless rounding
swallows it; and in no other case. -/
theorem lt_sub_iff (h : x - d ≥ 0) : x < x - d ↔ d < 0 ∧ (x - d == x) = false := by
  have hx := double_read x
  have hd := double_read d
  rw [nonneg_iff,read_sub] at h
  have hsides := units_diff_sides hx hd h.1
  have hnx := isNaN_of_diff h.1
  have hnd := ((nonneg_diff_iff hx hd).mp h).2.1
  rw [← Bool.not_eq_true,beq_iff,lt_iff,lt_iff,read_sub,units_read_zero]
  simp only [h.1,hnx,hnd,isNaN_read_zero,true_and]
  omega

end Amount
end OfferAllocation
