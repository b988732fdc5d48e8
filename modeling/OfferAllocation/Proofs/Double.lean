import OfferAllocation.Proofs.Rounding

/-! Doubles as they are written and read. Each has a measure, an infinity too, and a number that is
written as a double and read again is rounded in terms of these measures. -/
namespace OfferAllocation
namespace Amount

open Float.Model Float.Model.UnpackedFloat

/-! An infinity has the measure of the first power of two that is too large for a double, so that
the order of finite numbers extends to it. -/

/-- The digits of the measure of infinity. Irreducible, for the power must not be evaluated. -/
@[irreducible] def topDigits : Nat := 2098

theorem topDigits_eq : topDigits = 2098 := by rw [topDigits]

/-- The measure of infinity. -/
def top : Nat := 2 ^ topDigits

theorem top_pos : 0 < top := Nat.two_pow_pos _

/-- The measure of a number in units of the least positive double. -/
def units : UnpackedFloat → Int
  | .notANumber => 0
  | .infinity s => s.apply top
  | .zero _ => 0
  | .finite s m e _ => s.apply (m * 2 ^ (e + 1074).toNat : Nat)

theorem two_pow_le_top {i : Nat} (h : i ≤ 2098) : 2 ^ i ≤ top :=
  Nat.pow_le_pow_right (by decide) (h.trans_eq topDigits_eq.symm)

theorem top_le_two_pow {i : Nat} (h : 2098 ≤ i) : top ≤ 2 ^ i :=
  Nat.pow_le_pow_right (by decide) (topDigits_eq.trans_le h)

theorem units_lt_top {m : Nat} {e : Int} (hm : m < 2 ^ 53) (he : e ≤ 971) :
    m * 2 ^ (e + 1074).toNat < top := by
  calc m * 2 ^ (e + 1074).toNat < 2 ^ 53 * 2 ^ (e + 1074).toNat :=
        Nat.mul_lt_mul_of_pos_right hm (Nat.two_pow_pos _)
    _ = 2 ^ (53 + (e + 1074).toNat) := (Nat.pow_add ..).symm
    _ ≤ top := two_pow_le_top (by omega)

theorem top_le_units {m : Nat} {e : Int} (hm : 2 ^ 52 ≤ m) (he : 971 < e) :
    top ≤ m * 2 ^ (e + 1074).toNat := by
  calc top ≤ 2 ^ (52 + (e + 1074).toNat) := top_le_two_pow (by omega)
    _ = 2 ^ 52 * 2 ^ (e + 1074).toNat := Nat.pow_add ..
    _ ≤ m * 2 ^ (e + 1074).toNat := Nat.mul_le_mul_right _ hm

theorem natAbs_apply (s : Sign) (n : Nat) : (s.apply n).natAbs = n := by
  cases s <;> simp [Sign.apply]

theorem apply_neg (s : Sign) (n : Int) : (-s).apply n = -s.apply n := by
  cases s with
  | negative => exact (neg_neg n).symm
  | positive => exact Eq.refl _

theorem sign_cases (s s' : Sign) : s' = s ∨ s' = -s := by
  cases s <;> cases s' <;> first | exact .inl rfl | exact .inr rfl

theorem natAbs_units_infinity (s : Sign) : (units (.infinity s)).natAbs = top := natAbs_apply s top

theorem units_neg_infinity (s : Sign) : units (.infinity (-s)) = -units (.infinity s) :=
  apply_neg s top

theorem units_neg_finite (s : Sign) {m : Nat} {e : Int} (hm : 0 < m) :
    units (.finite (-s) m e hm) = -units (.finite s m e hm) := apply_neg s _

/-! A double is written as bits and read again. -/

theorem exponentBias_eq : Format.binary64.exponentBias = 1023 := rfl

theorem toNat_one_append (b : BitVec 52) : (1#1 ++ b).toNat = 2 ^ 52 + b.toNat := by
  rw [BitVec.toNat_append,← Nat.shiftLeft_add_eq_or_of_lt b.isLt]
  simp [Nat.shiftLeft_eq]

theorem ofNat_ne {w n : Nat} {v : BitVec w} (hn : n < 2 ^ w) (h : n ≠ v.toNat) :
    BitVec.ofNat w n ≠ v := by
  rintro rfl
  rw [BitVec.toNat_ofNat,Nat.mod_eq_of_lt hn] at h
  exact h rfl

/-- What is read again of a number that is written as a double. -/
def stored (u : UnpackedFloat) : UnpackedFloat :=
  UnpackedFloat.unpack .binary64 (UnpackedFloat.pack .binary64 u)

@[simp] theorem stored_notANumber : stored .notANumber = .notANumber := unpack_packedNaN

@[simp] theorem stored_zero (s : Sign) : stored (.zero s) = .zero s := unpack_packedZero

@[simp] theorem stored_infinity (s : Sign) : stored (.infinity s) = .infinity s := by
  simp [stored,UnpackedFloat.pack,packedInfinity,UnpackedFloat.unpack]

theorem pack_finite (s : Sign) {m : Nat} {e : Int} (hm : 0 < m) (he : -1074 ≤ e) :
    UnpackedFloat.pack .binary64 (.finite s m e hm) =
      if 971 < e then packedInfinity .binary64 s
      else if m.log2 = 52 then
        packComponents .binary64 s (BitVec.ofNat 11 (e + 1075).toNat) (BitVec.ofNat 52 m)
      else packComponents .binary64 s 0#11 (BitVec.ofNat 52 m) := by
  have hbias : (e + Format.binary64.exponentBias + (52 : Nat)).toNat = (e + 1075).toNat := by
    rw [exponentBias_eq]
    omega
  have hbits : Format.binary64.mantissaBits = 53 := rfl
  have hgreatest : (2 ^ 11 ≤ (e + 1075).toNat + 1) = (971 < e) := by
    rw [eq_iff_iff]
    omega
  simp only [UnpackedFloat.pack,hbias,hbits,hgreatest,Nat.reduceEqDiff]

theorem stored_normal (s : Sign) {m : Nat} {e : Int} (hm : 0 < m) (hlt : m < 2 ^ 53)
    (hle : 2 ^ 52 ≤ m) (hleast : -1074 ≤ e) (hgreatest : e ≤ 971) :
    stored (.finite s m e hm) = .finite s m e hm := by
  have hlog : m.log2 = 52 := (Nat.log2_eq_iff hm.ne').mpr ⟨hle,hlt⟩
  have hbits : (BitVec.ofNat 11 (e + 1075).toNat).toNat = (e + 1075).toNat := by
    rw [BitVec.toNat_ofNat,Nat.mod_eq_of_lt (by omega)]
  have hones : BitVec.ofNat 11 (e + 1075).toNat ≠ -1#11 :=
    ofNat_ne (by omega) (by simp only [BitVec.reduceNeg,BitVec.reduceToNat]; omega)
  have hzero : BitVec.ofNat 11 (e + 1075).toNat ≠ 0#11 :=
    ofNat_ne (by omega) (by simp only [BitVec.reduceToNat]; omega)
  have hmantissa : (1#1 ++ BitVec.ofNat 52 m).toNat = m := by
    rw [toNat_one_append,BitVec.toNat_ofNat]
    omega
  rw [stored,pack_finite s hm hleast,if_neg (by omega),if_pos hlog]
  simp only [UnpackedFloat.unpack,unpackMantissa_packComponents,unpackExponent_packComponents,
    unpackSign_packComponents,Sign.ofBitVec_toBitVec]
  rw [if_neg hones,if_neg hzero]
  simp only [hmantissa,hbits,exponentBias_eq,UnpackedFloat.finite.injEq,true_and]
  omega

theorem stored_subnormal (s : Sign) {m : Nat} (hm : 0 < m) (hlt : m < 2 ^ 52) :
    stored (.finite s m (-1074) hm) = .finite s m (-1074) hm := by
  have hlog : m.log2 < 52 := (Nat.log2_lt hm.ne').mpr hlt
  have hmantissa : (BitVec.ofNat 52 m).toNat = m := by
    rw [BitVec.toNat_ofNat,Nat.mod_eq_of_lt hlt]
  have hne : BitVec.ofNat 52 m ≠ 0#52 := ofNat_ne hlt hm.ne'
  rw [stored,pack_finite s hm le_rfl,if_neg (by omega),if_neg hlog.ne]
  simp only [UnpackedFloat.unpack,unpackMantissa_packComponents,unpackExponent_packComponents,
    unpackSign_packComponents,Sign.ofBitVec_toBitVec]
  rw [if_neg (by decide)]
  simp only [if_true,hne,dite_false,hmantissa,exponentBias_eq,UnpackedFloat.finite.injEq,true_and]
  norm_num

theorem stored_finite (s : Sign) {m : Nat} {e : Int} (hm : 0 < m) (h : Canonical m e) :
    stored (.finite s m e hm) = if e ≤ 971 then .finite s m e hm else .infinity s := by
  split_ifs with he
  · obtain hfull | rfl := h.full
    · exact stored_normal s hm h.digits hfull h.least he
    · by_cases hlt : m < 2 ^ 52
      · exact stored_subnormal s hm hlt
      · exact stored_normal s hm h.digits (by omega) h.least he
  · rw [stored,pack_finite s hm h.least,if_pos (by omega)]
    exact stored_infinity s

/-- What a double is read as. -/
inductive Double : UnpackedFloat → Prop
  | notANumber : Double .notANumber
  | infinity (s : Sign) : Double (.infinity s)
  | zero (s : Sign) : Double (.zero s)
  | finite (s : Sign) {m : Nat} {e : Int} (hm : 0 < m) (h : Canonical m e) (he : e ≤ 971) :
    Double (.finite s m e hm)

theorem double_unpack (b : BitVec 64) : Double (UnpackedFloat.unpack .binary64 b) := by
  fun_cases UnpackedFloat.unpack with
  | case1 => exact .infinity _
  | case2 => exact .notANumber
  | case3 => exact .zero _
  | case4 mvec evec e svec s hne hevec hmvec =>
    have hlt : mvec.toNat < 2 ^ 52 := mvec.isLt
    have he : e + 1 = -1074 := by simp [e,hevec,exponentBias_eq]
    exact .finite _ _ ⟨by omega,by omega,.inr he⟩ (by omega)
  | case5 mvec evec e svec s hevec hevec' =>
    have hlt : mvec.toNat < 2 ^ 52 := mvec.isLt
    have happend : (1#1 ++ mvec).toNat = 2 ^ 52 + mvec.toNat := toNat_one_append mvec
    have hpos : evec.toNat ≠ 0 := by simpa [BitVec.toNat_eq] using hevec'
    have hones : evec.toNat ≠ 2047 := by simpa [BitVec.toNat_eq] using hevec
    have hlt' : evec.toNat < 2048 := evec.isLt
    have he : e = evec.toNat - 1075 := rfl
    exact .finite _ _ ⟨by omega,by omega,.inl (by omega)⟩ (by omega)

theorem Double.finite_cases {u : UnpackedFloat} (h : Double u) (hf : u.isFinite = true) :
    (∃ s, u = .zero s) ∨ ∃ s m e hm, u = .finite s m e hm ∧ Canonical m e ∧ e ≤ 971 := by
  cases h with
  | notANumber => contradiction
  | infinity s => contradiction
  | zero s => exact .inl ⟨s,rfl⟩
  | finite s hm h he => exact .inr ⟨s,_,_,hm,rfl,h,he⟩

theorem stored_eq_self {u : UnpackedFloat} (h : Double u) : stored u = u := by
  cases h with
  | notANumber => exact stored_notANumber
  | infinity s => exact stored_infinity s
  | zero s => exact stored_zero s
  | finite s hm h he => rw [stored_finite s hm h,if_pos he]

/-! Rounding, with signs and with infinity. -/

/-- The measures of doubles. -/
structure Measured (r : Int) : Prop where
  exact : Exact r.natAbs
  bounded : r.natAbs ≤ top

/-- One measure is a rounding of another: no double lies between them. -/
def RoundsTo (k n : Int) : Prop := ∀ r, Measured r → (r ≤ n → r ≤ k) ∧ (n ≤ r → k ≤ r)

theorem Measured.neg {r : Int} (h : Measured r) : Measured (-r) :=
  ⟨by simpa using h.exact,by simpa using h.bounded⟩

theorem RoundsTo.neg {k n : Int} (h : RoundsTo k n) : RoundsTo (-k) (-n) := by
  intro r hr
  obtain ⟨hle,hge⟩ := h (-r) hr.neg
  exact ⟨fun h => by have := hge (by omega); omega,fun h => by have := hle (by omega); omega⟩

/-- Rounding beyond the greatest double gives infinity. -/
theorem Rounds.clipped {k n : Nat} (h : Rounds k n) (hn : 0 < n) :
    RoundsTo (min k top : Nat) n := by
  intro r hr
  obtain ⟨hle,hge⟩ := h r.natAbs hr.exact
  have hbounded := hr.bounded
  constructor
  · intro hrn
    by_cases hr0 : r ≤ 0
    · omega
    · have := hle (by omega)
      omega
  · intro hnr
    have := hge (by omega)
    omega

theorem RoundsTo.refl {n : Int} : RoundsTo n n := fun _ _ => ⟨id,id⟩

theorem measured_zero : Measured 0 := ⟨⟨0,0,by norm_num,rfl⟩,Nat.zero_le _⟩

theorem measured_neg_one : Measured (-1) := ⟨⟨1,0,by norm_num,rfl⟩,top_pos⟩

/-- Rounding keeps the sign, since no double is closer to zero than one unit. -/
theorem RoundsTo.nonneg_iff {k n : Int} (h : RoundsTo k n) : 0 ≤ k ↔ 0 ≤ n := by
  constructor
  · intro hk
    by_contra hn
    have := (h _ measured_neg_one).2 (by omega)
    omega
  · exact (h 0 measured_zero).1

theorem measured_units {u : UnpackedFloat} (h : Double u) : Measured (units u) := by
  cases h with
  | notANumber => exact ⟨⟨0,0,by simp [units]⟩,by simp [units]⟩
  | infinity s =>
    rw [units]
    exact ⟨⟨1,topDigits,by norm_num,by rw [natAbs_apply,top,Nat.one_mul]⟩,(natAbs_apply s top).le⟩
  | zero s => exact ⟨⟨0,0,by simp [units]⟩,by simp [units]⟩
  | finite s hm h he =>
    rw [units]
    exact ⟨⟨_,_,h.digits,natAbs_apply s _⟩,by
      rw [natAbs_apply]; exact (units_lt_top h.digits he).le⟩

theorem natAbs_units_lt {u : UnpackedFloat} (h : Double u) (hf : u.isFinite = true) :
    (units u).natAbs < top := by
  obtain ⟨s,rfl⟩ | ⟨s,m,e,hm,rfl,h,he⟩ := h.finite_cases hf
  · exact top_pos
  · rw [units,natAbs_apply]
    exact units_lt_top h.digits he

theorem units_stored_finite (s : Sign) {m : Nat} {e : Int} (hm : 0 < m) (h : Canonical m e) :
    units (stored (.finite s m e hm)) = s.apply (min (m * 2 ^ (e + 1074).toNat) top : Nat) := by
  rw [stored_finite s hm h]
  split_ifs with he
  · rw [units,min_eq_left (units_lt_top h.digits he).le]
  · have hfull := h.full.resolve_right (by omega)
    rw [units,min_eq_right (top_le_units hfull (by omega))]

theorem isNaN_stored_finite (s : Sign) {m : Nat} {e : Int} (hm : 0 < m) (h : Canonical m e) :
    (stored (.finite s m e hm)).isNaN = false := by
  rw [stored_finite s hm h]
  split_ifs <;> rfl

theorem round_units (s : Sign) {n : Nat} {e : Int} (hn : 0 < n) (he : -1074 ≤ e) :
    (stored (UnpackedFloat.round .binary64 s n e)).isNaN = false ∧
      RoundsTo (units (stored (UnpackedFloat.round .binary64 s n e)))
        (s.apply (n * 2 ^ (e + 1074).toNat : Nat)) := by
  obtain ⟨m',e',hpos,hround,hcanonical,hrounds⟩ := round_finite s hn he
  rw [hround,units_stored_finite s hpos hcanonical]
  have hclipped := hrounds.clipped (by positivity)
  refine ⟨isNaN_stored_finite s hpos hcanonical,?_⟩
  cases s with
  | positive => exact hclipped
  | negative => exact hclipped.neg

theorem normalize_units (n : Int) {e : Int} (he : -1074 ≤ e) :
    (stored (normalize .binary64 n e .positive)).isNaN = false ∧
      RoundsTo (units (stored (normalize .binary64 n e .positive))) (n * 2 ^ (e + 1074).toNat) := by
  unfold UnpackedFloat.normalize
  rcases lt_trichotomy n 0 with h | rfl | h
  · obtain ⟨k,rfl⟩ : ∃ k : Nat, n = -k := ⟨n.natAbs,by omega⟩
    have hcompare : compare (-(k : Int)) 0 = .lt := compare_lt_iff_lt.mpr h
    simpa [hcompare,Sign.apply] using round_units .negative (n := k) (by omega) he
  · simp [units,RoundsTo,UnpackedFloat.isNaN]
  · obtain ⟨k,rfl⟩ := Int.eq_ofNat_of_zero_le h.le
    have hcompare : compare (k : Int) 0 = .gt := compare_gt_iff_gt.mpr h
    simpa [hcompare,Sign.apply] using round_units .positive (n := k) (by omega) he

/-! The order of doubles. -/

/-- Of two numbers with canonical mantissas the one with the greater exponent is greater. -/
theorem Canonical.lt_of_exponent {m m' : Nat} {e e' : Int} (h : Canonical m e) (h' : Canonical m' e')
    (hlt : e < e') : m * 2 ^ (e + 1074).toNat < m' * 2 ^ (e' + 1074).toNat := by
  have hleast := h.least
  have hfull := h'.full.resolve_right (by omega)
  calc m * 2 ^ (e + 1074).toNat < 2 ^ 53 * 2 ^ (e + 1074).toNat :=
        Nat.mul_lt_mul_of_pos_right h.digits (Nat.two_pow_pos _)
    _ = 2 ^ 52 * 2 ^ ((e + 1074).toNat + 1) := by ring
    _ ≤ 2 ^ 52 * 2 ^ (e' + 1074).toNat :=
        Nat.mul_le_mul_left _ (Nat.pow_le_pow_right (by decide) (by omega))
    _ ≤ m' * 2 ^ (e' + 1074).toNat := Nat.mul_le_mul_right _ hfull

theorem Canonical.compare_eq {m m' : Nat} {e e' : Int} (h : Canonical m e) (h' : Canonical m' e') :
    (compare e e').then (compare m m') =
      compare (m * 2 ^ (e + 1074).toNat) (m' * 2 ^ (e' + 1074).toNat) := by
  rcases lt_trichotomy e e' with hlt | rfl | hgt
  · rw [compare_lt_iff_lt.mpr hlt,compare_lt_iff_lt.mpr (h.lt_of_exponent h' hlt)]
    rfl
  · have hmono : StrictMono fun m => m * 2 ^ (e + 1074).toNat :=
      fun _ _ hlt => Nat.mul_lt_mul_of_pos_right hlt (Nat.two_pow_pos _)
    rw [compare_eq_iff_eq.mpr rfl,← cmp_eq_compare,← cmp_eq_compare]
    exact (hmono.cmp_map_eq m m').symm
  · rw [compare_gt_iff_gt.mpr hgt,compare_gt_iff_gt.mpr (h'.lt_of_exponent h hgt)]
    rfl

theorem compare_apply (s : Sign) (k n : Nat) :
    compare (s.apply k) (s.apply n) =
      match s with
      | .positive => compare k n
      | .negative => (compare k n).swap := by
  rw [← cmp_eq_compare,← cmp_eq_compare]
  cases s with
  | positive => exact Int.natCast_strictMono.cmp_map_eq k n
  | negative =>
    rw [cmp_swap]
    exact (Int.natCast_strictMono.neg).cmp_map_eq k n

theorem compare_sign (s s' : Sign) {n : Nat} (hn : 0 < n) :
    compare s s' = compare (s.apply n) (s'.apply n) := by
  cases s <;> cases s'
  · exact (compare_eq_iff_eq.mpr rfl).symm
  · exact (compare_lt_iff_lt.mpr (show -(n : Int) < n by omega)).symm
  · exact (compare_gt_iff_gt.mpr (show -(n : Int) < n by omega)).symm
  · exact (compare_eq_iff_eq.mpr rfl).symm

/-- The part of a measure without its sign. -/
theorem units_finite_bounds (s : Sign) {m : Nat} {e : Int} (hm : 0 < m) (h : Canonical m e)
    (he : e ≤ 971) : ∃ n : Nat, units (.finite s m e hm) = s.apply n ∧ 0 < n ∧ n < top :=
  ⟨_,rfl,by positivity,units_lt_top h.digits he⟩

/-- Doubles are ordered as their measures are. -/
theorem compare_units {a b : UnpackedFloat} (ha : Double a) (hb : Double b)
    (hna : a.isNaN = false) (hnb : b.isNaN = false) :
    UnpackedFloat.compare a b = some (compare (units a) (units b)) := by
  have hread {o : Ordering} (h : o.Compares (units a) (units b)) :
      some o = some (compare (units a) (units b)) := by
    rw [(compare_iff _ _).mpr h]
  have htop := top_pos
  cases ha with
  | notANumber => contradiction
  | infinity s =>
    cases hb with
    | notANumber => contradiction
    | infinity s' => exact congrArg some (compare_sign s s' htop)
    | zero s' => cases s <;> exact hread (by grind [units,Sign.apply,Ordering.Compares])
    | finite s' hm' h' he' =>
      obtain ⟨n,hn,hpos,hlt⟩ := units_finite_bounds s' hm' h' he'
      cases s <;> cases s' <;> exact hread (by grind [units,Sign.apply,Ordering.Compares])
  | zero s =>
    cases hb with
    | notANumber => contradiction
    | infinity s' => cases s' <;> exact hread (by grind [units,Sign.apply,Ordering.Compares])
    | zero s' => exact hread rfl
    | finite s' hm' h' he' =>
      obtain ⟨n,hn,hpos,hlt⟩ := units_finite_bounds s' hm' h' he'
      cases s' <;> exact hread (by grind [units,Sign.apply,Ordering.Compares])
  | finite s hm h he =>
    obtain ⟨n,hn,hpos,hlt⟩ := units_finite_bounds s hm h he
    cases hb with
    | notANumber => contradiction
    | infinity s' =>
      cases s <;> cases s' <;> exact hread (by grind [units,Sign.apply,Ordering.Compares])
    | zero s' =>
      cases s <;> exact hread (by grind [units,Sign.apply,Ordering.Compares])
    | finite s' hm' h' he' =>
      obtain ⟨n',hn',hpos',hlt'⟩ := units_finite_bounds s' hm' h' he'
      cases s <;> cases s'
      · have hswap := congrArg Ordering.swap (h.compare_eq h')
        exact congrArg some (hswap.trans (compare_apply .negative _ _).symm)
      · exact hread (by grind [units,Sign.apply,Ordering.Compares])
      · exact hread (by grind [units,Sign.apply,Ordering.Compares])
      · exact congrArg some ((h.compare_eq h').trans (compare_apply .positive _ _).symm)

end Amount
end OfferAllocation
