import Mathlib.Data.List.TakeWhile
import OfferAllocation.Json.Parse
import OfferAllocation.Json.Print

/-! Written documents are read back. The text of a tree falls into the tokens of the tree, and these
build the tree again, provided that it holds nothing that has no text of its own. -/
namespace OfferAllocation

namespace Numeral

theorem isDigit_of_mem_ofNat {n : Nat} {c : Char} (h : c ∈ ofNat n) : c.isDigit = true :=
  Nat.isDigit_of_mem_toDigits (by decide) (by decide) h

theorem value_ofNat (n : Nat) : value (ofNat n) = n := by
  have h : Nat.ofDigitChars 10 (ofNat n) 0 = n := Nat.ofDigitChars_ten_toDigits
  rwa [Nat.ofDigitChars_eq_foldl] at h

theorem splitDigits_ofNat (n : Nat) : splitDigits (ofNat n) = (ofNat n,[]) :=
  Prod.ext (List.takeWhile_eq_self_iff.mpr fun _ => isDigit_of_mem_ofNat)
    (List.dropWhile_eq_nil_iff.mpr fun _ => isDigit_of_mem_ofNat)

/-- Only the numeral of zero begins with a zero. -/
theorem exists_ofNat_eq_cons {n : Nat} (h : 0 < n) : ∃ d ds, ofNat n = d :: ds ∧ d ≠ '0' := by
  induction n using Nat.strongRecOn with
  | ind n ih =>
    by_cases hn : n < 10
    · have hdigit : ∀ m < 10, 0 < m → Nat.digitChar m ≠ '0' := by decide
      exact ⟨_,[],Nat.toDigits_of_lt_base hn,hdigit n hn h⟩
    · obtain ⟨d,ds,hds,hd⟩ := ih (n / 10) (by omega) (by omega)
      refine ⟨d,ds ++ [Nat.digitChar (n % 10)],?_,hd⟩
      rw [ofNat,Nat.toDigits_of_base_le (by decide) (by omega),← List.cons_append,← hds]
      rfl

end Numeral

namespace Json

theorem soundItems_iff {js : List Json} : soundItems js = true ↔ ∀ j ∈ js, j.sound = true := by
  induction js <;> simp_all [soundItems]

theorem soundMembers_iff {ms : List (Label × Json)} :
    soundMembers ms = true ↔ ∀ m ∈ ms, m.1.isSome = true ∧ m.2.sound = true := by
  induction ms <;> simp_all [soundMembers]

/-- Trees that are the same after writing and reading, with containers nested at most to a depth:
without doubles and void literals, and with integers that have a double near. -/
inductive Exact : Nat → Json → Prop
  | null {d} : Exact d .null
  | bool {d} (b : Bool) : Exact d (.bool b)
  | natural {d n} (reach : inReach n = true) : Exact d (.natural n)
  | string {d} (s : String) : Exact d (.string s)
  | array {d js} (items : ∀ j ∈ js, Exact d j) : Exact (d+1) (.array js)
  | object {d ms} (labels : ∀ m ∈ ms, m.1.isSome = true) (members : ∀ m ∈ ms, Exact d m.2) :
    Exact (d+1) (.object ms)

namespace Exact

variable {d d' : Nat} {j : Json}

theorem mono (h : Exact d j) (hd : d ≤ d') : Exact d' j := by
  induction h generalizing d' with
  | null => exact .null
  | bool b => exact .bool b
  | natural reach => exact .natural reach
  | string s => exact .string s
  | array _ ih =>
    obtain ⟨d',rfl⟩ := Nat.exists_eq_add_of_lt hd
    exact .array fun j hj => ih j hj (by omega)
  | object labels _ ih =>
    obtain ⟨d',rfl⟩ := Nat.exists_eq_add_of_lt hd
    exact .object labels fun m hm => ih m hm (by omega)

theorem sound (h : Exact d j) : j.sound = true := by
  induction h with
  | null => rfl
  | bool b => rfl
  | natural reach => rfl
  | string s => rfl
  | array _ ih => exact soundItems_iff.mpr ih
  | object labels _ ih => exact soundMembers_iff.mpr fun m hm => ⟨labels m hm,ih m hm⟩

end Exact

mutual

/-- The tokens of a tree. -/
def tokens : Json → List Token
  | .string s => [.string (some s)]
  | .array [] => [.openArray,.closeArray]
  | .array (j :: js) => .openArray :: (tokens j ++ itemTokens js)
  | .object [] => [.openObject,.closeObject]
  | .object ((k,j) :: ms) => .openObject :: .string k :: .colon :: (tokens j ++ memberTokens ms)
  | j => [.value j]

/-- The items after the first, and the end of the array. -/
def itemTokens : List Json → List Token
  | [] => [.closeArray]
  | j :: js => .comma :: (tokens j ++ itemTokens js)

/-- The members after the first, and the end of the object. -/
def memberTokens : List (Label × Json) → List Token
  | [] => [.closeObject]
  | (k,j) :: ms => .comma :: .string k :: .colon :: (tokens j ++ memberTokens ms)

end

/-! Words. -/

theorem word?_of_isDigit {d : Char} {ds : List Char} (h : d.isDigit = true) :
    word? (d :: ds) = unsigned? false (d :: ds) := by
  have hne : d ≠ 'n' ∧ d ≠ 't' ∧ d ≠ 'f' ∧ d ≠ '-' := by
    refine ⟨?_,?_,?_,?_⟩ <;> rintro rfl <;> exact absurd h (by decide)
  obtain ⟨hn,ht,hf,hminus⟩ := hne
  simp only [word?,List.cons.injEq,hn,ht,hf,false_and,if_false]
  split
  · rename_i heq
    exact absurd (List.cons.inj heq).1 hminus
  · rfl

theorem unsigned?_ofNat (n : Nat) : unsigned? false (Numeral.ofNat n) = some (ofNatural n) := by
  have hsplit := Numeral.splitDigits_ofNat n
  have hvalue := Numeral.value_ofNat n
  rcases Nat.eq_zero_or_pos n with rfl | hn
  · have hzero : Numeral.ofNat 0 = ['0'] := Nat.toDigits_zero 10
    rw [hzero] at hsplit hvalue ⊢
    simp [unsigned?,hsplit,hvalue]
  · obtain ⟨d,ds,hds,hd⟩ := Numeral.exists_ofNat_eq_cons hn
    rw [hds] at hsplit hvalue ⊢
    simp [unsigned?,hsplit,hvalue,hd]

theorem word?_ofNat {n : Nat} (h : inReach n = true) :
    word? (Numeral.ofNat n) = some (.natural n) := by
  have hword : word? (Numeral.ofNat n) = unsigned? false (Numeral.ofNat n) := by
    cases hds : Numeral.ofNat n with
    | nil => exact absurd hds Nat.toDigits_ne_nil
    | cons d ds => exact word?_of_isDigit (Numeral.isDigit_of_mem_ofNat (hds ▸ List.mem_cons_self))
  rw [hword,unsigned?_ofNat,ofNatural,if_pos h]

/-! Texts in quotes. -/

theorem spell_toNat (cs : List Char) : spell (cs.map Char.toNat) = some cs := by
  have hplain (c : Char) : isLeading c.toNat = false ∧ isTrailing c.toNat = false := by
    have hvalid : c.toNat < 0xD800 ∨ 0xDFFF < c.toNat ∧ c.toNat < 0x110000 := c.valid
    simp only [isLeading,isTrailing,Bool.and_eq_false_iff,decide_eq_false_iff_not]
    omega
  induction cs with
  | nil => rfl
  | cons c cs ih =>
    obtain ⟨hlead,htrail⟩ := hplain c
    cases cs with
    | nil => simp [spell,hlead,htrail]
    | cons c' cs =>
      simp only [List.map_cons] at ih ⊢
      simp [spell,hlead,htrail,ih]

namespace Scan

variable {s s₁ : Scan} {ts ts₁ ts₂ : List Token} {us : List Nat} {c : Char} {cs cs' : List Char}

theorem step_unit {n : Nat} (h : n < 16) (v due : Nat) :
    step ⟨.unit us v (due+1),ts⟩ (Hex.digit n) = some ⟨.unit us (16*v + n) due,ts⟩ := by
  simp [step,Hex.value?_digit h]

theorem step_lastUnit {n : Nat} (h : n < 16) (v : Nat) :
    step ⟨.unit us v 0,ts⟩ (Hex.digit n) = some ⟨.quoted ((16*v + n) :: us),ts⟩ := by
  simp [step,Hex.value?_digit h]

theorem foldlM_digits {n : Nat} (h : n < 0x10000) :
    (Hex.digits 4 n).foldlM step ⟨.unit us 0 3,ts⟩ = some ⟨.quoted (n :: us),ts⟩ := by
  have hlt (m : Nat) : m % 16 < 16 := Nat.mod_lt m (by decide)
  have hsum : 16 * (16 * (16 * (16 * 0 + n / 16 / 16 / 16 % 16) + n / 16 / 16 % 16) + n / 16 % 16)
      + n % 16 = n := by omega
  simp only [Hex.digits,List.nil_append,List.cons_append,List.foldlM_cons,List.foldlM_nil,
    step_unit (hlt _),step_lastUnit (hlt _),Option.bind_eq_bind,Option.bind_some,hsum]
  rfl

theorem foldlM_escape (c : Char) (us : List Nat) (ts : List Token) :
    (escape c).foldlM step ⟨.quoted us,ts⟩ = some ⟨.quoted (c.toNat :: us),ts⟩ := by
  unfold escape
  split
  case h_8 hquote hbackslash _ _ _ _ _ =>
    by_cases hc : c.toNat < 0x20
    · rw [if_pos hc]
      exact foldlM_digits (by omega)
    · have hstep : step ⟨.quoted us,ts⟩ c = some ⟨.quoted (c.toNat :: us),ts⟩ := by
        simp only [step]
        rw [if_neg hquote,if_neg hbackslash,if_neg hc]
      rw [if_neg hc]
      simp [hstep]
  all_goals rfl

theorem foldlM_flatMap_escape (cs : List Char) (us : List Nat) (ts : List Token) :
    (cs.flatMap escape).foldlM step ⟨.quoted us,ts⟩ =
      some ⟨.quoted ((cs.map Char.toNat).reverse ++ us),ts⟩ := by
  induction cs generalizing us with
  | nil => rfl
  | cons c cs ih =>
    rw [List.flatMap_cons,List.foldlM_append,foldlM_escape]
    simp [ih]

/-! Between tokens. A word is over only when something else follows, or nothing. -/

/-- The tokens read so far, the word just being read taken for whole. -/
def settled (s : Scan) : Option (List Token) :=
  match s.mode with
  | .between => some s.tokens
  | .word seen => (word? seen.reverse).map fun j => .value j :: s.tokens
  | _ => none

theorem finish_eq (s : Scan) : s.finish = s.settled.map List.reverse := by
  obtain ⟨mode,ts⟩ := s
  cases mode <;> simp [finish,settled,Function.comp_def]

theorem step_eq_enter (h : s.settled = some ts) (hc : isWordChar c = false) :
    s.step c = enter ts c := by
  obtain ⟨mode,ts'⟩ := s
  cases mode with
  | between =>
    cases h
    rfl
  | word seen =>
    obtain ⟨j,hj,rfl⟩ := Option.map_eq_some_iff.mp h
    simp [step,hc,hj]
  | quoted _ => cases h
  | escaped _ => cases h
  | unit _ _ _ => cases h

theorem enter_of_isWordChar (h : isWordChar c = true) : enter ts c = some ⟨.word [c],ts⟩ := by
  have hspace : isSpace c = false := by
    refine Bool.eq_false_iff.mpr fun hc => ?_
    simp only [isSpace,Bool.or_eq_true,beq_iff_eq] at hc
    obtain ((rfl | rfl) | rfl) | rfl := hc <;> exact absurd h (by decide)
  have hquote : c ≠ '"' := by
    rintro rfl
    exact absurd h (by decide)
  rw [enter,hspace,if_neg (by decide),if_neg hquote,if_pos h]

/-- A text leads to a scan at which these tokens have been read. -/
def Reaches (s : Scan) (cs : List Char) (ts : List Token) : Prop :=
  ∃ s', cs.foldlM step s = some s' ∧ s'.settled = some ts

namespace Reaches

theorem cons (hstep : s.step c = some s₁) (h : Reaches s₁ cs ts) : Reaches s (c :: cs) ts := by
  obtain ⟨s',hs',hts⟩ := h
  exact ⟨s',by simp [hstep,hs'],hts⟩

theorem append (h : Reaches s cs ts₁) (h' : ∀ s₁, s₁.settled = some ts₁ → Reaches s₁ cs' ts₂) :
    Reaches s (cs ++ cs') ts₂ := by
  obtain ⟨s₁,hs₁,hts₁⟩ := h
  obtain ⟨s₂,hs₂,hts₂⟩ := h' s₁ hts₁
  exact ⟨s₂,by simp [hs₁,hs₂],hts₂⟩

theorem word {j : Json} (hne : cs ≠ []) (hcs : cs.all isWordChar = true)
    (hj : word? cs = some j) : Reaches ⟨.between,ts⟩ cs (.value j :: ts) := by
  have hfold (seen cs : List Char) (hcs : cs.all isWordChar = true) :
      cs.foldlM step ⟨.word seen,ts⟩ = some ⟨.word (cs.reverse ++ seen),ts⟩ := by
    induction cs generalizing seen with
    | nil => rfl
    | cons c cs ih =>
      rw [List.all_cons,Bool.and_eq_true] at hcs
      simp [step,hcs.1,ih (c :: seen) hcs.2]
  cases cs with
  | nil => exact absurd rfl hne
  | cons c cs =>
    rw [List.all_cons,Bool.and_eq_true] at hcs
    refine cons (enter_of_isWordChar hcs.1) ⟨_,hfold [c] cs hcs.2,?_⟩
    simp [settled,hj]

theorem quote (h : s.settled = some ts) (t : String) :
    Reaches s (quote t) (.string (some t) :: ts) := by
  have hopen : s.step '"' = some ⟨.quoted [],ts⟩ := step_eq_enter h (by decide)
  have hlabel : label ((t.toList.map Char.toNat).reverse ++ []).reverse = some t := by
    simp [label,spell_toNat]
  refine cons hopen ⟨⟨.between,.string (some t) :: ts⟩,?_,rfl⟩
  rw [List.foldlM_append,foldlM_flatMap_escape]
  simp only [Option.bind_eq_bind,Option.bind_some,List.foldlM_cons,List.foldlM_nil,step,if_true,
    hlabel]
  rfl

end Reaches

/-! Trees. -/

variable {d : Nat} {j : Json} {js : List Json} {ms : List (Label × Json)}

theorem reaches_printItems
    (hjs : ∀ j ∈ js, ∀ ts, Reaches ⟨.between,ts⟩ j.print (j.tokens.reverse ++ ts))
    (h : s.settled = some ts) : Reaches s (printItems js) ((itemTokens js).reverse ++ ts) := by
  induction js generalizing s ts with
  | nil => exact .cons (step_eq_enter h (by decide)) ⟨_,rfl,rfl⟩
  | cons j js ih =>
    obtain ⟨hj,hjs⟩ := List.forall_mem_cons.mp hjs
    have hrest := (hj (.comma :: ts)).append fun s' hs' => ih hjs hs'
    refine .cons (step_eq_enter h (by decide)) ?_
    simpa [itemTokens] using hrest

/-- The name of a member, the colon and the value, and what comes after them. -/
theorem reaches_member {k : String} (h : s.settled = some ts)
    (hj : ∀ ts, Reaches ⟨.between,ts⟩ j.print (j.tokens.reverse ++ ts))
    (hrest : ∀ s, s.settled = some (j.tokens.reverse ++ .colon :: .string (some k) :: ts) →
      Reaches s cs ts₂) :
    Reaches s (printLabel (some k) ++ ':' :: (j.print ++ cs)) ts₂ :=
  (Reaches.quote h k).append fun _ hs =>
    .cons (step_eq_enter hs (by decide)) ((hj _).append hrest)

theorem reaches_printMembers (hlabels : ∀ m ∈ ms, m.1.isSome = true)
    (hms : ∀ m ∈ ms, ∀ ts, Reaches ⟨.between,ts⟩ m.2.print (m.2.tokens.reverse ++ ts))
    (h : s.settled = some ts) : Reaches s (printMembers ms) ((memberTokens ms).reverse ++ ts) := by
  induction ms generalizing s ts with
  | nil => exact .cons (step_eq_enter h (by decide)) ⟨_,rfl,rfl⟩
  | cons m ms ih =>
    obtain ⟨label,j⟩ := m
    obtain ⟨hm,hrest⟩ := List.forall_mem_cons.mp hms
    obtain ⟨hlabel,hothers⟩ := List.forall_mem_cons.mp hlabels
    obtain ⟨k,rfl⟩ := Option.isSome_iff_exists.mp hlabel
    refine .cons (step_eq_enter h (by decide)) (reaches_member rfl hm fun s' hs' => ?_)
    simpa [memberTokens] using ih hothers hrest hs'

theorem reaches_print (h : Exact d j) (ts : List Token) :
    Reaches ⟨.between,ts⟩ j.print (j.tokens.reverse ++ ts) := by
  -- Whatever comes next starts with a mark, which ends a numeral: so the parts need only be settled.
  induction h generalizing ts with
  | null => exact .word (by decide) rfl rfl
  | bool b =>
    cases b with
    | true => exact .word (by decide) rfl rfl
    | false => exact .word (by decide) rfl rfl
  | natural reach =>
    refine .word Nat.toDigits_ne_nil (List.all_eq_true.mpr fun c hc => ?_) (word?_ofNat reach)
    have hdigit := Numeral.isDigit_of_mem_ofNat hc
    simp [isWordChar,Char.isAlphanum,hdigit]
  | string s => exact .quote rfl s
  | @array d js _ ih =>
    cases js with
    | nil => exact ⟨_,rfl,rfl⟩
    | cons j js =>
      obtain ⟨hj,hjs⟩ := List.forall_mem_cons.mp ih
      have hrest := (hj (.openArray :: ts)).append fun s' hs' => reaches_printItems hjs hs'
      refine .cons rfl ?_
      simpa [Json.tokens] using hrest
  | @object d ms hlabels _ ih =>
    cases ms with
    | nil => exact ⟨_,rfl,rfl⟩
    | cons m ms =>
      obtain ⟨label,j⟩ := m
      obtain ⟨hm,hrest⟩ := List.forall_mem_cons.mp ih
      obtain ⟨hlabel,hothers⟩ := List.forall_mem_cons.mp hlabels
      obtain ⟨k,rfl⟩ := Option.isSome_iff_exists.mp hlabel
      refine .cons rfl (reaches_member rfl hm fun s' hs' => ?_)
      simpa [Json.tokens] using reaches_printMembers hothers hrest hs'

end Scan

/-- The text of a tree falls into the tokens of the tree. -/
theorem tokens?_print {d : Nat} {j : Json} (h : Exact d j) : tokens? j.print = some j.tokens := by
  obtain ⟨s,hs,hts⟩ := Scan.reaches_print h []
  have hfold : j.print.foldlM Scan.step Scan.start = some s := hs
  simp [tokens?,hfold,Scan.finish_eq,hts]

namespace Stage

variable {d : Nat} {j : Json} {js done : List Json} {ms met : List (Label × Json)}
  {fs : List Frame} {ts : List Token}

theorem close_eq_place (h : fs.length < depthLimit) (j : Json) : close j fs = place j fs := by
  have hdrop : fs.drop (depthLimit - 1) = [] := List.drop_eq_nil_of_le (Nat.le_sub_one_of_lt h)
  rw [close,hdrop,List.isEmpty_nil,if_pos rfl]

theorem exists_tokens_eq_cons (j : Json) : ∃ t ts, j.tokens = t :: ts ∧ t ≠ .closeArray := by
  unfold tokens
  split <;> exact ⟨_,_,rfl,by simp⟩

/-- The first item of an array is read as any item is. -/
theorem foldlM_firstItem :
    (j.tokens ++ ts).foldlM step (.firstItem fs) =
      (j.tokens ++ ts).foldlM step (.value (.array [] :: fs)) := by
  obtain ⟨t,rest,hj,ht⟩ := exists_tokens_eq_cons j
  have hstep : step (.firstItem fs) t = step (.value (.array [] :: fs)) t := by
    cases t <;> first | rfl | exact absurd rfl ht
  rw [hj,List.cons_append,List.foldlM_cons,List.foldlM_cons,hstep]

theorem foldlM_itemTokens (hd : fs.length + (d+1) ≤ depthLimit)
    (hjs : ∀ j ∈ js, ∀ fs : List Frame, fs.length + d ≤ depthLimit → ∀ ts,
      (j.tokens ++ ts).foldlM step (.value fs) = ts.foldlM step (place j fs)) :
    (itemTokens js ++ ts).foldlM step (.afterItem done fs) =
      ts.foldlM step (place (.array (done.reverse ++ js)) fs) := by
  induction js generalizing done with
  | nil =>
    rw [List.append_nil,← close_eq_place (by omega)]
    rfl
  | cons j js ih =>
    obtain ⟨hj,hrest⟩ := List.forall_mem_cons.mp hjs
    have hinner : (Frame.array done :: fs).length + d ≤ depthLimit := by
      rw [List.length_cons]
      omega
    have hvalue := hj _ hinner (itemTokens js ++ ts)
    rw [itemTokens,List.cons_append,List.append_assoc,List.foldlM_cons]
    refine hvalue.trans ((ih hrest).trans ?_)
    rw [List.reverse_cons,List.append_assoc,List.singleton_append]

theorem foldlM_memberTokens (hd : fs.length + (d+1) ≤ depthLimit)
    (hms : ∀ m ∈ ms, ∀ fs : List Frame, fs.length + d ≤ depthLimit → ∀ ts,
      (m.2.tokens ++ ts).foldlM step (.value fs) = ts.foldlM step (place m.2 fs)) :
    (memberTokens ms ++ ts).foldlM step (.afterMember met fs) =
      ts.foldlM step (place (.object (met.reverse ++ ms)) fs) := by
  induction ms generalizing met with
  | nil =>
    rw [List.append_nil,← close_eq_place (by omega)]
    rfl
  | cons m ms ih =>
    obtain ⟨k,j⟩ := m
    obtain ⟨hj,hrest⟩ := List.forall_mem_cons.mp hms
    have hinner : (Frame.object met k :: fs).length + d ≤ depthLimit := by
      rw [List.length_cons]
      omega
    have hvalue := hj _ hinner (memberTokens ms ++ ts)
    rw [memberTokens]
    simp only [List.cons_append,List.append_assoc,List.foldlM_cons]
    refine hvalue.trans ((ih hrest).trans ?_)
    rw [List.reverse_cons,List.append_assoc,List.singleton_append]

/-- The tokens of a tree put it in its place, provided that the containers around leave enough depth
for it. -/
theorem foldlM_tokens (h : Exact d j) (hd : fs.length + d ≤ depthLimit) (ts : List Token) :
    (j.tokens ++ ts).foldlM step (.value fs) = ts.foldlM step (place j fs) := by
  induction h generalizing fs ts with
  | null => rfl
  | bool b => rfl
  | natural reach => rfl
  | string s => rfl
  | @array d js _ ih =>
    cases js with
    | nil =>
      rw [← close_eq_place (by omega)]
      rfl
    | cons j js =>
      obtain ⟨hj,hrest⟩ := List.forall_mem_cons.mp ih
      have hinner : (Frame.array [] :: fs).length + d ≤ depthLimit := by
        rw [List.length_cons]
        omega
      have hfirst := hj hinner (itemTokens js ++ ts)
      rw [tokens,List.cons_append,List.append_assoc,List.foldlM_cons]
      exact foldlM_firstItem.trans (hfirst.trans
        (foldlM_itemTokens hd fun j hj fs hfs ts => hrest j hj hfs ts))
  | @object d ms _ _ ih =>
    cases ms with
    | nil =>
      rw [← close_eq_place (by omega)]
      rfl
    | cons m ms =>
      obtain ⟨k,j⟩ := m
      obtain ⟨hj,hrest⟩ := List.forall_mem_cons.mp ih
      have hinner : (Frame.object [] k :: fs).length + d ≤ depthLimit := by
        rw [List.length_cons]
        omega
      have hfirst := hj hinner (memberTokens ms ++ ts)
      rw [tokens]
      simp only [List.cons_append,List.append_assoc,List.foldlM_cons]
      exact hfirst.trans (foldlM_memberTokens hd fun m hm fs hfs ts => hrest m hm hfs ts)

end Stage

/-- What is written for a tree is read as that tree. -/
theorem parse_render {j : Json} (h : Exact Stage.depthLimit j) : parse j.render = some j := by
  have hdepth : ([] : List Frame).length + Stage.depthLimit ≤ Stage.depthLimit := by simp
  have hfold : j.tokens.foldlM Stage.step (.value []) = some (.complete j) := by
    simpa [Stage.place] using Stage.foldlM_tokens h hdepth []
  simp [parse,render,tokens?_print h,hfold]

end Json
end OfferAllocation
