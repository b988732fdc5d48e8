import Mathlib

/-! Rounding to doubles. A number is measured in units of the least positive double, and what it is
rounded to is such that no double lies between the two. -/
namespace OfferAllocation
namespace Amount

open Float.Model Float.Model.UnpackedFloat

section Mantissas

/-! Digits are dropped from a mantissa one at a time. -/

/-- A mantissa from which `k` digits have been dropped. -/
def dropped (m k : Nat) : ExtendedMantissa := ExtendedMantissa.mk m false false >>> k

variable (m k : Nat)

theorem dropped_succ : dropped m (k+1) = (dropped m k).shiftRightOne := rfl

theorem dropped_mantissa : (dropped m k).mantissa = m / 2 ^ k := by
  induction k with
  | zero => simp [dropped,HShiftRight.hShiftRight,Nat.repeat]
  | succ k ih =>
    simp only [dropped_succ,ExtendedMantissa.shiftRightOne,ih,Nat.div_div_eq_div_mul,Nat.pow_succ]

/-- A digit is remembered only if one other than zero was dropped. -/
theorem mod_ne_zero_of_dropped (h : (dropped m k).roundBit = true ∨ (dropped m k).stickyBit = true) :
    m % 2 ^ k ≠ 0 := by
  induction k with
  | zero => simp [dropped,HShiftRight.hShiftRight,Nat.repeat] at h
  | succ k ih =>
    have hmod := Nat.mod_pow_succ (b := 2) (k := k) (x := m)
    simp only [dropped_succ,ExtendedMantissa.shiftRightOne,dropped_mantissa,bne_iff_ne,
      Bool.or_eq_true] at h
    rcases h with h | h
    · have hpos : 0 < 2 ^ k * (m / 2 ^ k % 2) := by positivity
      omega
    · have hne := ih h
      omega

theorem roundedMantissa_bounds (em : ExtendedMantissa) :
    em.mantissa ≤ em.roundedMantissa ∧ em.roundedMantissa ≤ em.mantissa + 1 ∧
      (em.roundBit = true ∨ em.stickyBit = true ∨ em.roundedMantissa = em.mantissa) := by
  obtain ⟨m,r,s⟩ := em
  cases r <;> cases s <;>
    simp [ExtendedMantissa.roundedMantissa,ExtendedMantissa.accuracy,Accuracy.roundToNearestEven]
  omega

/-- A rounded mantissa is that of one of the two neighbours, and of none but the number itself if
that is one of them. -/
theorem roundedMantissa_dropped : m / 2 ^ k ≤ (dropped m k).roundedMantissa ∧
    ∀ c, m ≤ c * 2 ^ k → (dropped m k).roundedMantissa ≤ c := by
  obtain ⟨hle,hsucc,hexact⟩ := roundedMantissa_bounds (dropped m k)
  rw [dropped_mantissa] at hle hsucc hexact
  refine ⟨hle,fun c hc => ?_⟩
  have hfloor : m / 2 ^ k ≤ c := Nat.div_le_of_le_mul (by rwa [Nat.mul_comm])
  by_cases hd : (dropped m k).roundBit = true ∨ (dropped m k).stickyBit = true
  · have hne := mod_ne_zero_of_dropped m k hd
    have hm := Nat.div_add_mod' m (2 ^ k)
    have hlt : m / 2 ^ k < c := by
      rcases Nat.lt_or_eq_of_le hfloor with h | rfl
      · exact h
      · omega
    omega
  · rw [not_or] at hd
    obtain hr | hs | heq := hexact
    · exact absurd hr hd.1
    · exact absurd hs hd.2
    · rwa [heq]

end Mantissas

/-- A measure that needs no more than the 53 digits of a double. -/
def Exact (k : Nat) : Prop := ∃ m i, m < 2 ^ 53 ∧ k = m * 2 ^ i

/-- One measure is a rounding of another: no exact one lies between them. -/
def Rounds (k n : Nat) : Prop := ∀ r, Exact r → (r ≤ n → r ≤ k) ∧ (n ≤ r → k ≤ r)

/-- Rounding to the multiples of a power of two that leave 53 digits. -/
theorem rounds_of_neighbour {m j k r : Nat} (hk : k ≤ j) (hfull : 0 < j → 2 ^ 52 ≤ m / 2 ^ k)
    (hle : m / 2 ^ k ≤ r) (hge : ∀ c, m ≤ c * 2 ^ k → r ≤ c) :
    Rounds (r * 2 ^ j) (m * 2 ^ (j - k)) := by
  have hj : 2 ^ j = 2 ^ k * 2 ^ (j - k) := by rw [← Nat.pow_add,Nat.add_sub_cancel' hk]
  rintro x ⟨c,i,hc,rfl⟩
  by_cases hi : j ≤ i
  · -- The exact measure is itself one of the multiples.
    have hx : c * 2 ^ i = c * 2 ^ (i - j) * 2 ^ j := by
      rw [Nat.mul_assoc,← Nat.pow_add,Nat.sub_add_cancel hi]
    rw [hx]
    constructor
    · intro h
      rw [hj,← Nat.mul_assoc] at h
      have hc' := (Nat.le_div_iff_mul_le (Nat.two_pow_pos k)).mpr
        (Nat.le_of_mul_le_mul_right h (Nat.two_pow_pos _))
      exact Nat.mul_le_mul_right _ (hc'.trans hle)
    · intro h
      rw [hj,← Nat.mul_assoc] at h
      have hc' := hge _ (Nat.le_of_mul_le_mul_right h (Nat.two_pow_pos _))
      exact Nat.mul_le_mul_right _ hc'
  · -- It is finer than the multiples, so it is smaller than all numbers that are rounded to them.
    have hq := hfull (by omega)
    have hx : c * 2 ^ i < 2 ^ 52 * 2 ^ j := by
      calc c * 2 ^ i < 2 ^ 53 * 2 ^ i := Nat.mul_lt_mul_of_pos_right hc (Nat.two_pow_pos i)
        _ = 2 ^ 52 * 2 ^ (i + 1) := by ring
        _ ≤ 2 ^ 52 * 2 ^ j := Nat.mul_le_mul_left _ (Nat.pow_le_pow_right (by decide) (by omega))
    have hr : 2 ^ 52 * 2 ^ j ≤ r * 2 ^ j := Nat.mul_le_mul_right _ (hq.trans hle)
    have hm : 2 ^ 52 * 2 ^ j ≤ m * 2 ^ (j - k) := by
      rw [hj,← Nat.mul_assoc]
      exact Nat.mul_le_mul_right _ ((Nat.le_div_iff_mul_le (Nat.two_pow_pos k)).mp hq)
    exact ⟨fun _ => by omega,fun h => by omega⟩


/-- A finite double in its only form: 53 digits, or fewer at the least exponent. -/
structure Canonical (m : Nat) (e : Int) : Prop where
  digits : m < 2 ^ 53
  least : -1074 ≤ e
  full : 2 ^ 52 ≤ m ∨ e = -1074

/-- The exponent at which a number has 53 digits, or the least one. -/
def target (m : Nat) (e : Int) : Int := max (m.log2 + e - 52) (-1074)

theorem targetExponent_eq (m : Nat) (e : Int) :
    Format.binary64.targetExponent (totalExponent m e) = target m e := by
  simp only [Format.targetExponent,totalExponent,Format.mantissaBits,Format.minExponent,target]
  norm_num
  omega

theorem shiftToTargetExponent_eq (m : Nat) (e : Int) :
    shiftToTargetExponent .binary64 m e .exact =
      (dropped m (target m e - e).toNat,e + (target m e - e).toNat) := by
  simp only [shiftToTargetExponent,shiftToExponent,targetExponent_eq]
  rfl

/-- Rounding may give one digit too many, but then the last one is zero. -/
theorem shift_rounded {r : Nat} {e : Int} (hr : r ≤ 2 ^ 53) (hpos : 0 < r) (he : -1074 ≤ e)
    (hfull : -1074 < e → 2 ^ 52 ≤ r) :
    ∃ em e', shiftToTargetExponent .binary64 r e .exact = (em,e') ∧ 0 < em.mantissa ∧
      Canonical em.mantissa e' ∧
      em.mantissa * 2 ^ (e' + 1074).toNat = r * 2 ^ (e + 1074).toNat := by
  rw [shiftToTargetExponent_eq]
  refine ⟨_,_,rfl,?_⟩
  rw [dropped_mantissa]
  rcases Nat.lt_or_eq_of_le hr with hlt | rfl
  · have hlog : r.log2 < 53 := (Nat.log2_lt hpos.ne').mpr hlt
    have htarget : (target r e - e).toNat = 0 := by simp only [target]; omega
    simp only [htarget,Nat.pow_zero,Nat.div_one]
    exact ⟨hpos,⟨hlt,by omega,by omega⟩,by simp⟩
  · have htarget : (target (2 ^ 53) e - e).toNat = 1 := by
      simp only [target,Nat.log2_two_pow]; omega
    have hexp : (e + 1 + 1074).toNat = (e + 1074).toNat + 1 := by omega
    simp only [htarget]
    refine ⟨by norm_num,⟨by norm_num,by omega,by norm_num⟩,?_⟩
    push_cast
    rw [hexp,Nat.pow_succ]
    ring

theorem log2_mul_two_pow {m : Nat} (hm : 0 < m) (i : Nat) : (m * 2 ^ i).log2 = m.log2 + i := by
  induction i with
  | zero => simp
  | succ i ih =>
    rw [Nat.pow_succ',Nat.mul_left_comm,Nat.log2_two_mul (by positivity),ih,Nat.add_assoc]

/-- Dropping all digits but 53. -/
theorem div_two_pow_digits {m k : Nat} (hm : 0 < m) :
    (m.log2 ≤ 52 + k → m / 2 ^ k < 2 ^ 53) ∧ (52 + k ≤ m.log2 → 2 ^ 52 ≤ m / 2 ^ k) := by
  constructor
  · intro h
    rw [Nat.div_lt_iff_lt_mul (Nat.two_pow_pos k),← Nat.pow_add]
    exact (Nat.log2_lt hm.ne').mp (by omega)
  · intro h
    rw [Nat.le_div_iff_mul_le (Nat.two_pow_pos k),← Nat.pow_add]
    exact (Nat.le_log2 hm.ne').mp h

/-- The exponent is at most the one at which there are 53 digits, so that digits are only dropped. -/
theorem round_fine (s : Sign) {m : Nat} {e : Int} (hm : 0 < m) (he : -1074 ≤ e)
    (hfine : e ≤ target m e) :
    ∃ m' e' h, roundWithAccuracy .binary64 s m e .exact = .finite s m' e' h ∧ Canonical m' e' ∧
      Rounds (m' * 2 ^ (e' + 1074).toNat) (m * 2 ^ (e + 1074).toNat) := by
  set k := (target m e - e).toNat with hk
  have hek : e + k = target m e := by omega
  have htarget : target m e = max (m.log2 + e - 52) (-1074) := rfl
  obtain ⟨hle,hge⟩ := roundedMantissa_dropped m k
  have hlt : m / 2 ^ k < 2 ^ 53 := (div_two_pow_digits hm).1 (by omega)
  have hfull : -1074 < target m e → 2 ^ 52 ≤ m / 2 ^ k := fun h =>
    (div_two_pow_digits hm).2 (by omega)
  have hpos : 0 < m / 2 ^ k := by
    by_cases h : -1074 < target m e
    · exact Nat.lt_of_lt_of_le (by norm_num) (hfull h)
    · have hk0 : k = 0 := by omega
      simpa [hk0] using hm
  have hsucc : (dropped m k).roundedMantissa ≤ m / 2 ^ k + 1 := by
    refine hge _ ?_
    have := Nat.lt_mul_div_succ m (Nat.two_pow_pos k)
    rw [Nat.mul_comm]
    exact this.le
  obtain ⟨em,e',hshift,hpos',hcanonical,hvalue⟩ :=
    shift_rounded (r := (dropped m k).roundedMantissa) (e := target m e) (by omega) (by omega)
      (by omega) (fun h => (hfull h).trans hle)
  refine ⟨em.mantissa,e',hpos',?_,hcanonical,?_⟩
  · simp only [roundWithAccuracy,shiftToTargetExponent_eq m e,← hk,hek,hshift,hpos'.ne',
      dite_false]
  · rw [hvalue]
    have h := rounds_of_neighbour (m := m) (j := (target m e + 1074).toNat) (k := k) (by omega)
      (fun h => hfull (by omega)) hle hge
    rwa [show (target m e + 1074).toNat - k = (e + 1074).toNat by omega] at h

theorem round_finite (s : Sign) {m : Nat} {e : Int} (hm : 0 < m) (he : -1074 ≤ e) :
    ∃ m' e' h, UnpackedFloat.round .binary64 s m e = .finite s m' e' h ∧ Canonical m' e' ∧
      Rounds (m' * 2 ^ (e' + 1074).toNat) (m * 2 ^ (e + 1074).toNat) := by
  have htarget : target m e = max (m.log2 + e - 52) (-1074) := rfl
  set i := (e - target m e).toNat with hi
  have hpos : 0 < m * 2 ^ i := by positivity
  have hfine : e - i ≤ target (m * 2 ^ i) (e - i) := by
    simp only [target,log2_mul_two_pow hm]
    omega
  have hexp : (e + 1074).toNat = i + (e - i + 1074).toNat := by omega
  rw [hexp,Nat.pow_add,← Nat.mul_assoc]
  simp only [UnpackedFloat.round,decreaseExponent,targetExponent_eq,← hi,Nat.shiftLeft_eq]
  exact round_fine s hpos (by omega) hfine

end Amount
end OfferAllocation
