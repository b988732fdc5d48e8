import Mathlib.Logic.Basic
import OfferAllocation.Admission

/-! Small letters. When the letters A to Z of a text are made small, nothing changes of what a filter
sees in it: neither its form in lower case, whatever stands around a sigma, nor the number that it
stands for. -/
namespace OfferAllocation
namespace Text

/-- What is the same for each of the letters A to Z and its small form is so for all characters, for
no other has a small form of this kind. -/
theorem apply_toLower {α : Type} (f : Char → α)
    (h : ∀ n : Fin 26, f (Char.ofNat (n+65)).toLower = f (Char.ofNat (n+65))) (c : Char) :
    f c.toLower = f c := by
  by_cases hc : c.val ≥ 'A'.val ∧ c.val ≤ 'Z'.val
  · have hn : 65 ≤ c.toNat ∧ c.toNat ≤ 90 := by
      simpa [UInt32.le_iff_toNat_le] using hc
    have hcapital : Char.ofNat (c.toNat - 65 + 65) = c := by
      rw [Nat.sub_add_cancel hn.1,Char.ofNat_toNat]
    have hf := h ⟨c.toNat - 65,by omega⟩
    rwa [hcapital] at hf
  · have hsmall : c.toLower = c := dif_neg hc
    rw [hsmall]

@[simp] theorem isCased_toLower (c : Char) : isCased c.toLower = isCased c :=
  apply_toLower isCased (by decide +kernel) c

@[simp] theorem isCaseIgnorable_toLower (c : Char) :
    isCaseIgnorable c.toLower = isCaseIgnorable c :=
  apply_toLower isCaseIgnorable (by decide +kernel) c

@[simp] theorem lowerChar_toLower (c : Char) : lowerChar c.toLower = lowerChar c :=
  apply_toLower lowerChar (by decide +kernel) c

@[simp] theorem isBlank_toLower (c : Char) : isBlank c.toLower = isBlank c :=
  apply_toLower isBlank (by decide +kernel) c

@[simp] theorem isDigit_toLower (c : Char) : c.toLower.isDigit = c.isDigit :=
  apply_toLower Char.isDigit (by decide +kernel) c

@[simp] theorem isAlpha_toLower (c : Char) : c.toLower.isAlpha = c.isAlpha :=
  apply_toLower Char.isAlpha (by decide +kernel) c

@[simp] theorem toLower_toLower (c : Char) : c.toLower.toLower = c.toLower :=
  apply_toLower Char.toLower (by decide +kernel) c

theorem toLower_of_not_isAlpha {c : Char} (h : c.isAlpha = false) : c.toLower = c := by
  refine dif_neg fun hc => ?_
  have hupper : c.isUpper = true := decide_eq_true hc
  have halpha : c.isAlpha = true := Bool.or_eq_true_iff.mpr (.inl hupper)
  rw [h] at halpha
  cases halpha

/-- Only itself has a character that is no letter as its small form. -/
theorem toLower_eq_iff {x : Char} (hx : x.isAlpha = false) (c : Char) : c.toLower = x ↔ c = x := by
  constructor
  · rintro rfl
    rw [isAlpha_toLower] at hx
    exact (toLower_of_not_isAlpha hx).symm
  · rintro rfl
    exact toLower_of_not_isAlpha hx

theorem dropWhile_map_toLower {p : Char → Bool} (hp : ∀ c : Char, p c.toLower = p c)
    (cs : List Char) : (cs.map Char.toLower).dropWhile p = (cs.dropWhile p).map Char.toLower := by
  have hcomp : p ∘ Char.toLower = p := funext hp
  rw [List.dropWhile_map,hcomp]

theorem trim_map (cs : List Char) : trim (cs.map Char.toLower) = (trim cs).map Char.toLower := by
  simp only [trim,dropWhile_map_toLower isBlank_toLower,← List.map_reverse]

theorem meetsCased_map (cs : List Char) : meetsCased (cs.map Char.toLower) = meetsCased cs := by
  rw [meetsCased,dropWhile_map_toLower isCaseIgnorable_toLower,meetsCased]
  cases cs.dropWhile isCaseIgnorable <;> simp

/-- A sigma takes the same form among small letters, both those before it and those after it. -/
theorem lowerAfter_map (before cs : List Char) :
    lowerAfter (before.map Char.toLower) (cs.map Char.toLower) = lowerAfter before cs := by
  induction cs generalizing before with
  | nil => rfl
  | cons c cs ih =>
    have ih := ih (c :: before)
    have hsigma : c.toLower = 'Σ' ↔ c = 'Σ' := toLower_eq_iff (by decide) c
    simp only [List.map_cons] at ih ⊢
    simp only [lowerAfter,ih,hsigma,lowerSigma,meetsCased_map,lowerChar_toLower]

/-- A text with the letters A to Z made small. -/
def uncased (s : String) : String := String.ofList (foldAscii s)

@[simp] theorem toList_uncased (s : String) : (uncased s).toList = s.toList.map Char.toLower := by
  simp [uncased,foldAscii]

@[simp] theorem foldAscii_uncased (s : String) : foldAscii (uncased s) = foldAscii s := by
  simp [foldAscii]

@[simp] theorem lower_uncased (s : String) : lower (uncased s) = lower s := by
  rw [lower,toList_uncased]
  exact lowerAfter_map [] s.toList

end Text

namespace Numeral
open Text

theorem map_toLower_of_digits {cs : List Char} (h : cs.all Char.isDigit = true) :
    cs.map Char.toLower = cs := by
  refine (List.map_congr_left fun c hc => ?_).trans (List.map_id cs)
  have hd : c.isDigit = true := List.all_eq_true.mp h c hc
  refine dif_neg fun hupper => ?_
  simp [Char.isDigit,UInt32.le_iff_toNat_le] at hd hupper
  omega

theorem splitDigits_map (cs : List Char) :
    splitDigits (cs.map Char.toLower) =
      ((splitDigits cs).1,(splitDigits cs).2.map Char.toLower) := by
  have hcomp : Char.isDigit ∘ Char.toLower = Char.isDigit := funext isDigit_toLower
  simp only [splitDigits,dropWhile_map_toLower isDigit_toLower,Prod.mk.injEq,and_true]
  rw [List.takeWhile_map,hcomp]
  exact map_toLower_of_digits (List.all_takeWhile ..)

@[simp] theorem natural?_map (cs : List Char) :
    natural? (cs.map Char.toLower) = natural? cs := by
  have hall : (cs.map Char.toLower).all Char.isDigit = cs.all Char.isDigit := by
    simp [List.all_map,Function.comp_def]
  by_cases hd : cs.all Char.isDigit = true
  · rw [map_toLower_of_digits hd]
  · simp [natural?,hall,hd]

/-! The signs, the point and the mark of an exponent that a numeral may have are the same among small
letters. -/

@[simp] theorem word?_map (cs : List Char) : word? (cs.map Char.toLower) = word? cs := by
  cases cs with
  | nil => rfl
  | cons c cs =>
    have hplus := toLower_eq_iff (x := '+') (by decide) c
    have hall := natural?_map (c :: cs)
    rw [List.map_cons] at hall ⊢
    by_cases hp : c = '+'
    · subst hp
      simp [word?]
    · simp [word?,hplus,hp,hall]

/-- What is read of a text by its sign is the same among small letters if what is read after the sign
is. -/
theorem bySign_map {α : Type} {minus plus bare : List Char → α}
    (hminus : ∀ cs, minus (cs.map Char.toLower) = minus cs)
    (hplus : ∀ cs, plus (cs.map Char.toLower) = plus cs)
    (hbare : ∀ cs, bare (cs.map Char.toLower) = bare cs) (cs : List Char) :
    (match cs.map Char.toLower with
      | '-' :: r => minus r
      | '+' :: r => plus r
      | r => bare r) =
    match cs with
      | '-' :: r => minus r
      | '+' :: r => plus r
      | r => bare r := by
  cases cs with
  | nil => exact hbare []
  | cons c cs =>
    have hm := toLower_eq_iff (x := '-') (by decide) c
    have hp := toLower_eq_iff (x := '+') (by decide) c
    have hall := hbare (c :: cs)
    rw [List.map_cons] at hall ⊢
    by_cases hneg : c = '-'
    · subst hneg
      exact hminus cs
    · by_cases hpos : c = '+'
      · subst hpos
        exact hplus cs
      · simp [hm,hp,hneg,hpos,hall]

@[simp] theorem integer?_map (cs : List Char) :
    integer? (cs.map Char.toLower) = integer? cs :=
  bySign_map (by simp) (by simp) (by simp) cs

@[simp] theorem exponent?_map (cs : List Char) :
    exponent? (cs.map Char.toLower) = exponent? cs := by
  cases cs with
  | nil => rfl
  | cons c cs =>
    have hmark : (c.toLower = 'e' ∨ c.toLower = 'E') = (c = 'e' ∨ c = 'E') :=
      apply_toLower (fun c => c = 'e' ∨ c = 'E') (by decide +kernel) c
    simp only [List.map_cons,exponent?,hmark,integer?_map]

@[simp] theorem magnitude?_map (negative : Bool) (cs : List Char) :
    magnitude? negative (cs.map Char.toLower) = magnitude? negative cs := by
  have hword : (cs.map Char.toLower).map Char.toLower = cs.map Char.toLower := by simp
  simp only [magnitude?,hword,splitDigits_map]
  cases (splitDigits cs).2 with
  | nil => rfl
  | cons c rest =>
    have hpoint := toLower_eq_iff (x := '.') (by decide) c
    by_cases hc : c = '.'
    · subst hc
      simp [splitDigits_map]
    · have hrest := exponent?_map (c :: rest)
      rw [List.map_cons] at hrest
      simp [hpoint,hc,hrest]

@[simp] theorem double?_map (cs : List Char) : double? (cs.map Char.toLower) = double? cs :=
  bySign_map (magnitude?_map true) (magnitude?_map false) (magnitude?_map false) cs

end Numeral

/-! What filters make of texts, and registries of names. -/

section Views

variable (s t : String)

@[simp] theorem Text.sameAscii_uncased_left : sameAscii (uncased s) t = sameAscii s t := by
  simp [sameAscii]

@[simp] theorem Text.sameAscii_uncased_right : sameAscii s (uncased t) = sameAscii s t := by
  simp [sameAscii]

@[simp] theorem Text.sameLower_uncased : sameLower (uncased s) (uncased t) = sameLower s t := by
  simp [sameLower]

@[simp] theorem Admission.wordTerm?_uncased : wordTerm? (Text.uncased t) = wordTerm? t := by
  simp [wordTerm?,Text.trim_map]

@[simp] theorem Admission.doubleTerm?_uncased : doubleTerm? (Text.uncased t) = doubleTerm? t := by
  simp [doubleTerm?,Text.trim_map]

@[simp] theorem FilterKind.ofName?_uncased : ofName? (Text.uncased s) = ofName? s := by
  simp [ofName?]

@[simp] theorem Strategy.ofName_uncased : ofName (Text.uncased s) = ofName s := by
  simp [ofName]

end Views
end OfferAllocation
