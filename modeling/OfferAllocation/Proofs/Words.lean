import Mathlib.Data.List.DropRight
import OfferAllocation.Proofs.Admission

/-! Words. A filter for ranges looks for machine words among its terms: numerals in ASCII digits
that may have a plus sign before them and blanks around them. Terms of any other form are passed
over. -/
namespace OfferAllocation

namespace Text

variable {before core after : List Char}

/-- Blanks are taken from both ends, as far as they go. -/
theorem trim_append (hbefore : ∀ c ∈ before, isBlank c = true)
    (hcore : ∀ c ∈ core, isBlank c = false) (hafter : ∀ c ∈ after, isBlank c = true) :
    trim (before ++ core ++ after) = core := by
  have hleft : (before ++ core ++ after).dropWhile isBlank = (core ++ after).dropWhile isBlank := by
    rw [List.append_assoc,List.dropWhile_append_of_pos hbefore]
  cases core with
  | nil =>
    have hnil : after.dropWhile isBlank = [] := List.dropWhile_eq_nil_iff.mpr hafter
    rw [trim,hleft,List.nil_append,hnil]
    rfl
  | cons c core =>
    have hkept : (c :: core ++ after).dropWhile isBlank = c :: core ++ after :=
      List.dropWhile_cons_of_neg (by simp [hcore c])
    have hright : (c :: core ++ after).rdropWhile isBlank = (c :: core).rdropWhile isBlank := by
      rw [List.rdropWhile,List.reverse_append,
        List.dropWhile_append_of_pos fun x hx => hafter x (List.mem_reverse.mp hx)]
      rfl
    have hlast : (c :: core).rdropWhile isBlank = c :: core :=
      List.rdropWhile_eq_self_iff.mpr fun hne => by simp [hcore _ (List.getLast_mem hne)]
    calc trim (before ++ c :: core ++ after)
      _ = (c :: core ++ after).rdropWhile isBlank := by rw [trim,hleft,hkept]; rfl
      _ = c :: core := hright.trans hlast

theorem exists_trim (cs : List Char) : ∃ before after, cs = before ++ trim cs ++ after ∧
    (∀ c ∈ before, isBlank c = true) ∧ ∀ c ∈ after, isBlank c = true := by
  refine ⟨cs.takeWhile isBlank,(cs.dropWhile isBlank).rtakeWhile isBlank,?_,?_,?_⟩
  · have hright : trim cs ++ (cs.dropWhile isBlank).rtakeWhile isBlank = cs.dropWhile isBlank :=
      List.rdropWhile_append_rtakeWhile ..
    rw [List.append_assoc,hright,List.takeWhile_append_dropWhile]
  · exact fun c hc => List.mem_takeWhile_imp hc
  · exact fun c hc => List.mem_rtakeWhile_imp hc

theorem isBlank_of_isDigit {c : Char} (h : c.isDigit = true) : isBlank c = false := by
  simp [Char.isDigit,UInt32.le_iff_toNat_le] at h
  simp [isBlank,Ranges.contains,blanks]
  omega

end Text

namespace Numeral

/-- One or more digits, with zeros leading or not, that spell a number in base ten. -/
structure Spells (ds : List Char) (n : Nat) : Prop where
  nonempty : ds ≠ []
  digits : ∀ d ∈ ds, d.isDigit = true
  value : Nat.ofDigitChars 10 ds 0 = n

variable {cs ds : List Char} {n : Nat} {w : UInt64}

theorem value_eq (ds : List Char) : value ds = Nat.ofDigitChars 10 ds 0 := by
  rw [Nat.ofDigitChars_eq_foldl]
  rfl

theorem natural?_eq_some_iff : natural? ds = some n ↔ Spells ds n := by
  simp only [natural?,Option.ite_none_right_eq_some,Option.some.injEq,List.all_eq_true,value_eq]
  constructor
  · rintro ⟨⟨hne,hd⟩,hv⟩
    exact ⟨hne,hd,hv⟩
  · rintro ⟨hne,hd,hv⟩
    exact ⟨⟨hne,hd⟩,hv⟩

theorem Spells.head_ne {d : Char} (h : Spells (d :: ds) n) : d ≠ '+' := by
  rintro rfl
  exact absurd (h.digits '+' List.mem_cons_self) (by decide)

theorem natural?_bind_eq_some_iff : ((natural? ds).bind fun n =>
    if n < limit then some (UInt64.ofNat n) else none) = some w ↔ Spells ds w.toNat := by
  simp only [Option.bind_eq_some_iff,natural?_eq_some_iff,Option.ite_none_right_eq_some,
    Option.some.injEq]
  constructor
  · rintro ⟨n,hn,hlt,rfl⟩
    rwa [UInt64.toNat_ofNat_of_lt' hlt]
  · intro h
    exact ⟨w.toNat,h,w.toNat_lt,UInt64.ofNat_toNat⟩

/-- The sign is no digit, so that a numeral is read in one way only. -/
theorem word?_eq_some_iff :
    word? cs = some w ↔ ∃ ds, (cs = ds ∨ cs = '+' :: ds) ∧ Spells ds w.toNat := by
  unfold word?
  split
  next r =>
    rw [natural?_bind_eq_some_iff]
    constructor
    · intro h
      exact ⟨r,.inr rfl,h⟩
    · rintro ⟨ds,rfl | hds,h⟩
      · exact absurd rfl h.head_ne
      · rwa [(List.cons.inj hds).2]
  next hplus =>
    rw [natural?_bind_eq_some_iff]
    constructor
    · intro h
      exact ⟨cs,.inl rfl,h⟩
    · rintro ⟨ds,rfl | hds,h⟩
      · exact h
      · exact absurd hds (hplus ds)

end Numeral

/-- A term stands for a machine word: its numeral, maybe after a plus sign, maybe among blanks. -/
inductive StandsFor (t : String) (n : Nat) : Prop
  | intro (before sign ds after : List Char) (text : t.toList = before ++ (sign ++ ds) ++ after)
    (leading : ∀ c ∈ before, Text.isBlank c = true) (signed : sign = [] ∨ sign = ['+'])
    (numeral : Numeral.Spells ds n) (trailing : ∀ c ∈ after, Text.isBlank c = true)
    (limit : n < UInt64.size)

section Terms

variable {t : String} {n : Nat} {w : UInt64}

theorem StandsFor.lt (h : StandsFor t n) : n < UInt64.size := by
  obtain ⟨-,-,-,-,-,-,-,-,-,hlt⟩ := h
  exact hlt

theorem Admission.wordTerm?_eq_some_iff : wordTerm? t = some w ↔ StandsFor t w.toNat := by
  rw [wordTerm?,Numeral.word?_eq_some_iff]
  constructor
  · rintro ⟨ds,htrim,hds⟩
    obtain ⟨before,after,ht,hbefore,hafter⟩ := Text.exists_trim t.toList
    obtain htrim | htrim := htrim
    · exact ⟨before,[],ds,after,by rw [ht,htrim]; rfl,hbefore,.inl rfl,hds,hafter,w.toNat_lt⟩
    · exact ⟨before,['+'],ds,after,by rw [ht,htrim]; rfl,hbefore,.inr rfl,hds,hafter,w.toNat_lt⟩
  · rintro ⟨before,sign,ds,after,ht,hbefore,hsign,hds,hafter,-⟩
    have hdigits : ∀ c ∈ ds, Text.isBlank c = false :=
      fun c hc => Text.isBlank_of_isDigit (hds.digits c hc)
    have hcore : ∀ c ∈ sign ++ ds, Text.isBlank c = false := by
      obtain rfl | rfl := hsign
      · exact hdigits
      · exact List.forall_mem_cons.mpr ⟨by decide,hdigits⟩
    rw [ht,Text.trim_append hbefore hcore hafter]
    obtain rfl | rfl := hsign
    · exact ⟨ds,.inl rfl,hds⟩
    · exact ⟨ds,.inr rfl,hds⟩

theorem Admission.exists_wordTerm?_iff {q : Nat → Prop} :
    (∃ w, wordTerm? t = some w ∧ q w.toNat) ↔ ∃ n, StandsFor t n ∧ q n := by
  simp only [wordTerm?_eq_some_iff]
  constructor
  · rintro ⟨w,hw,hq⟩
    exact ⟨w.toNat,hw,hq⟩
  · rintro ⟨n,hn,hq⟩
    have hword : (UInt64.ofNat n).toNat = n := UInt64.toNat_ofNat_of_lt' hn.lt
    exact ⟨UInt64.ofNat n,by rwa [hword],by rwa [hword]⟩

theorem Admission.wordTerm?_eq_none_iff : wordTerm? t = none ↔ ∀ n, ¬ StandsFor t n := by
  have h := exists_wordTerm?_iff (t := t) (q := fun _ => True)
  simp only [and_true] at h
  rw [Option.eq_none_iff_forall_ne_some,← not_exists,h,not_exists]

end Terms

/-- The ranges that a term meets hold the word that it stands for, between their ends or at one. -/
theorem AttributeValue.meets_ranges_iff {v : AttributeValue} {t : String} :
    v.Meets .ranges t ↔ ∃ n, StandsFor t n ∧
      ∃ rs, v = .ranges rs ∧ ∃ r ∈ rs, r.first.toNat ≤ n ∧ n ≤ r.last.toNat := by
  rw [← Admission.exists_wordTerm?_iff]
  cases v <;> simp [Meets,ValueRange.contains_iff]

theorem admits_ranges_iff {ts : List String} {as : List Attribute} :
    admits .full [⟨.ranges,ts⟩] as = true ↔ ∃ t ∈ ts, ∃ n, StandsFor t n ∧
      ∃ a ∈ as, ∃ rs, a.value = .ranges rs ∧ ∃ r ∈ rs, r.first.toNat ≤ n ∧ n ≤ r.last.toNat := by
  simp only [admits_iff,List.cons_ne_nil,false_or,List.mem_singleton,exists_eq_left,
    Constraint.termsIn,Constraint.kindIn,AttributeValue.meets_ranges_iff]
  refine exists_congr fun t => and_congr_right fun _ => ⟨?_,?_⟩
  · rintro ⟨a,ha,n,hn,hr⟩
    exact ⟨n,hn,a,ha,hr⟩
  · rintro ⟨n,hn,a,ha,hr⟩
    exact ⟨a,ha,n,hn,hr⟩

/-- A filter for ranges lets an offer through just if one of its terms stands for a word in a range
of the offer. A term that stands for none takes no part, wherever it comes, and no more does a range
that ends before it begins. -/
theorem ranges_filter_by_words (ts : List String) (as : List Attribute) :
    (admits .full [⟨.ranges,ts⟩] as = true ↔ ∃ t ∈ ts, ∃ n, StandsFor t n ∧
      ∃ a ∈ as, ∃ rs, a.value = .ranges rs ∧ ∃ r ∈ rs, r.first.toNat ≤ n ∧ n ≤ r.last.toNat) ∧
      (∀ before t after, ts = before ++ t :: after → (∀ n, ¬ StandsFor t n) →
        admits .full [⟨.ranges,ts⟩] as = admits .full [⟨.ranges,before ++ after⟩] as) ∧
      ∀ before name rs r rs' after, as = before ++ .ranges name (rs ++ r :: rs') :: after →
        r.last < r.first → admits .full [⟨.ranges,ts⟩] as =
          admits .full [⟨.ranges,ts⟩] (before ++ .ranges name (rs ++ rs') :: after) := by
  refine ⟨admits_ranges_iff,?_,?_⟩
  · rintro before t after rfl ht
    rw [Bool.eq_iff_iff,admits_ranges_iff,admits_ranges_iff]
    simp [or_and_right,exists_or,ht]
  · rintro before name rs r rs' after rfl hr
    have hempty (n : Nat) : ¬ (r.first.toNat ≤ n ∧ n ≤ r.last.toNat) := by
      have hlt := UInt64.lt_iff_toNat_lt.mp hr
      omega
    rw [Bool.eq_iff_iff,admits_ranges_iff,admits_ranges_iff]
    simp [or_and_right,exists_or,hempty]

theorem ranges_filter_by_words_last_word :
    let bad := ["","-5","18446744073709551616","1 2","٣"]
    let good := " \u3000+0018446744073709551615\t"
    let last : UInt64 := 18446744073709551615
    let ports (rs : List ValueRange) : List Attribute := [.text "port" "5",.ranges "ports" rs]
    let as := ports [⟨90,70⟩,⟨last,last⟩]
    StandsFor good last.toNat ∧ (∀ t ∈ bad, ∀ n, ¬ StandsFor t n) ∧
      admits .full [⟨.ranges,bad ++ [good]⟩] as = true ∧
      admits .full [⟨.ranges,bad ++ ["80"]⟩] as = admits .full [⟨.ranges,bad.tail ++ ["80"]⟩] as ∧
      (70 : UInt64) < 90 ∧ admits .full [⟨.ranges,bad ++ ["80"]⟩] as =
        admits .full [⟨.ranges,bad ++ ["80"]⟩] (ports [⟨last,last⟩]) := by
  intro bad good last ports as
  have hgood : StandsFor good last.toNat :=
    Admission.wordTerm?_eq_some_iff.mp (by decide +kernel)
  have hbad : ∀ t ∈ bad, ∀ n, ¬ StandsFor t n := by
    have hnone : ∀ t ∈ bad, Admission.wordTerm? t = none := by decide +kernel
    exact fun t ht => Admission.wordTerm?_eq_none_iff.mp (hnone t ht)
  have hheld : ∃ a ∈ as, ∃ rs, a.value = .ranges rs ∧
      ∃ r ∈ rs, r.first.toNat ≤ last.toNat ∧ last.toNat ≤ r.last.toNat :=
    ⟨.ranges "ports" [⟨90,70⟩,⟨last,last⟩],by simp [as,ports],_,rfl,⟨last,last⟩,by simp,by decide⟩
  obtain ⟨-,hterms,hranges⟩ := ranges_filter_by_words (bad ++ ["80"]) as
  exact ⟨hgood,hbad,
    (ranges_filter_by_words _ as).1.mpr ⟨good,by simp,last.toNat,hgood,hheld⟩,
    hterms [] "" (bad.tail ++ ["80"]) rfl (hbad "" List.mem_cons_self),by decide,
    hranges [.text "port" "5"] "ports" [] ⟨90,70⟩ [⟨last,last⟩] [] rfl (by decide)⟩

end OfferAllocation
