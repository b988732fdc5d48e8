import Mathlib.Data.List.Perm.Basic
import OfferAllocation.Config
import OfferAllocation.Offer
import OfferAllocation.Proofs.Codec
import OfferAllocation.Task

/-! Records read from objects. What an object gives a field are the values of the members that the
field answers to, and of these alone depends whether the object is taken for a record and for which,
provided that all its names are texts. -/
namespace OfferAllocation

namespace Json

/-- Members whose names all are texts. -/
def labelled (ms : List (String × Json)) : List (Label × Json) := ms.map fun m => (some m.1,m.2)

/-- The object with these members. -/
def record (ms : List (String × Json)) : Json := .object (labelled ms)

section Labelled

variable {ms ms' : List (String × Json)} {ls : List (Label × Json)}

theorem label_injective :
    Function.Injective fun m : String × Json => ((some m.1,m.2) : Label × Json) := by
  rintro ⟨k,j⟩ ⟨k',j'⟩ ⟨⟩
  rfl

theorem labelled_injective : Function.Injective labelled := label_injective.list_map

theorem labelled_concat (k : String) (j : Json) :
    labelled (ms ++ [(k,j)]) = labelled ms ++ [(some k,j)] := List.map_append

theorem exists_labelled_iff : (∃ ms, ls = labelled ms) ↔ ∀ m ∈ ls, m.1 ≠ none := by
  constructor
  · rintro ⟨ms,rfl⟩ m hm
    obtain ⟨m,-,rfl⟩ := List.mem_map.mp hm
    exact nofun
  · intro h
    induction ls with
    | nil => exact ⟨[],rfl⟩
    | cons m ls ih =>
      obtain ⟨hm,hls⟩ := List.forall_mem_cons.mp h
      obtain ⟨ms,rfl⟩ := ih hls
      obtain ⟨k,hk⟩ := Option.ne_none_iff_exists'.mp hm
      exact ⟨(k,m.2) :: ms,by rw [labelled,labelled,List.map_cons,← hk]⟩

theorem exists_labelled_eq_iff {p : List (String × Json) → Prop} :
    (∃ ms', labelled ms = labelled ms' ∧ p ms') ↔ p ms := by
  constructor
  · rintro ⟨ms',h,hp⟩
    rwa [labelled_injective h]
  · intro hp
    exact ⟨ms,rfl,hp⟩

/-- If all names are texts, they are in any order of the members. -/
theorem exists_labelled_of_perm (h : (labelled ms).Perm ls) :
    ∃ ms', ls = labelled ms' ∧ ms.Perm ms' := by
  have hnames : ∀ m ∈ ls, m.1 ≠ none :=
    fun m hm => exists_labelled_iff.mp ⟨ms,rfl⟩ m (h.symm.subset hm)
  obtain ⟨ms',rfl⟩ := exists_labelled_iff.mpr hnames
  exact ⟨ms',rfl,(List.map_perm_map_iff label_injective).mp h⟩

end Labelled

end Json

namespace Field

section Definitions

variable {α : Type} (f : Field α) (ms : List (String × Json))

/-- The values of the members that the field answers to. -/
def given : List Json := (ms.filter fun m => f.answersTo m.1).map Prod.snd

/-- The field is not given twice, and what it is given reads. -/
structure Readable : Prop where
  once : (f.given ms).length ≤ 1
  reads : ∀ j ∈ f.given ms, ∃ a, f.codec.read j = .ok a

/-- The value of a field is that of its one member, or the one for an absent field. -/
inductive Holds : α → Prop
  | member {j a} (one : f.given ms = [j]) (reads : f.codec.read j = .ok a) : Holds a
  | absent {a} (ungiven : f.given ms = []) (stands : f.absent = some a) : Holds a

/-- What has been met of the field among some members: one that reads, or nothing. -/
inductive Met : Option α → Prop
  | member {j a} (one : f.given ms = [j]) (reads : f.codec.read j = .ok a) : Met (some a)
  | absent (ungiven : f.given ms = []) : Met none

/-- Why a value cannot be taken for the field after some members: it is not the first, and then it
is not looked at, or it does not read. -/
inductive Refuses (j : Json) : Misfit → Prop
  | again (met : f.given ms ≠ []) : Refuses j (.duplicateField f.name)
  | value {e} (first : f.given ms = []) (unfit : f.codec.read j = .error e) : Refuses j e

/-- The field holds nothing where it is `null`. -/
inductive IsOptional : (α : Type) × Field α → Prop
  | intro {β} (name : String) (codec : Codec β) : IsOptional ⟨Option β,.optional name codec⟩

def names : List String := f.name :: f.otherName.toList

end Definitions

variable {α : Type} {f : Field α} {ms ms' : List (String × Json)} {k : String} {j : Json}
  {slot slot' : Option α} {a : α} {e : Misfit}

theorem answersTo_iff : f.answersTo k = true ↔ k ∈ f.names := by
  cases h : f.otherName with
  | none => simp [answersTo,names,h]
  | some name => simp [answersTo,names,h,eq_comm (a := k)]

theorem answersTo_name (f : Field α) : f.answersTo f.name = true :=
  answersTo_iff.mpr List.mem_cons_self

theorem given_cons_of_answersTo (h : f.answersTo k = true) :
    f.given ((k,j) :: ms) = j :: f.given ms := by
  simp [given,h]

theorem given_cons_of_not (h : f.answersTo k = false) : f.given ((k,j) :: ms) = f.given ms := by
  simp [given,h]

theorem given_eq_nil (h : ∀ m ∈ ms, f.answersTo m.1 = false) : f.given ms = [] := by
  simpa [given] using h

theorem given_append : f.given (ms ++ ms') = f.given ms ++ f.given ms' := by
  simp [given]

theorem given_append_of_answersTo (h : f.answersTo k = true) :
    f.given (ms ++ [(k,j)]) = f.given ms ++ [j] := by
  simp [given,h]

theorem given_append_of_not (h : f.answersTo k = false) :
    f.given (ms ++ [(k,j)]) = f.given ms := by
  simp [given,h]

theorem holds_nil_iff : f.Holds [] a ↔ f.absent = some a := by
  constructor
  · rintro (⟨one,-⟩ | ⟨-,stands⟩)
    · cases one
    · exact stands
  · exact .absent rfl

theorem Holds.perm (h : ms.Perm ms') (hms : f.Holds ms a) : f.Holds ms' a := by
  have hgiven : (f.given ms).Perm (f.given ms') := (h.filter _).map _
  cases hms with
  | member one reads => exact .member (List.perm_singleton.mp (one ▸ hgiven.symm)) reads
  | absent ungiven stands => exact .absent (List.perm_nil.mp (ungiven ▸ hgiven.symm)) stands

theorem Holds.of_given (h : f.given ms = f.given ms') (hms : f.Holds ms a) : f.Holds ms' a := by
  cases hms with
  | member one reads => exact .member (h ▸ one) reads
  | absent ungiven stands => exact .absent (h ▸ ungiven) stands

theorem Met.unique (h : f.Met ms slot) (h' : f.Met ms slot') : slot = slot' := by
  cases h <;> cases h' <;> simp_all

theorem Met.of_given (h : f.given ms = f.given ms') (hms : f.Met ms slot) : f.Met ms' slot := by
  cases hms with
  | member one reads => exact .member (h ▸ one) reads
  | absent ungiven => exact .absent (h ▸ ungiven)

theorem Met.congr (h : f.given ms = f.given ms') : f.Met ms slot ↔ f.Met ms' slot :=
  ⟨.of_given h,.of_given h.symm⟩

/-- After a member of its own a field has been met if it had not been before. -/
theorem met_append_iff (hk : f.answersTo k = true) :
    f.Met (ms ++ [(k,j)]) slot ↔ f.given ms = [] ∧ ∃ a, f.codec.read j = .ok a ∧ slot = some a := by
  have hgiven : f.given (ms ++ [(k,j)]) = f.given ms ++ [j] := given_append_of_answersTo hk
  constructor
  · rintro (⟨one,reads⟩ | ⟨ungiven⟩)
    · rw [hgiven,List.append_eq_singleton_iff] at one
      obtain ⟨hms,hj⟩ | ⟨-,hj⟩ := one
      · cases hj
        exact ⟨hms,_,reads,rfl⟩
      · cases hj
    · simp [hgiven] at ungiven
  · rintro ⟨hms,a,reads,rfl⟩
    exact .member (by rw [hgiven,hms,List.nil_append]) reads

theorem exists_met_iff : (∃ slot, f.Met ms slot) ↔ f.Readable ms := by
  constructor
  · rintro ⟨slot,⟨one,reads⟩ | ⟨ungiven⟩⟩
    · exact ⟨by simp [one],by simp [one,reads]⟩
    · exact ⟨by simp [ungiven],by simp [ungiven]⟩
  · rintro ⟨once,reads⟩
    cases hgiven : f.given ms with
    | nil => exact ⟨none,.absent hgiven⟩
    | cons j js =>
      obtain ⟨a,ha⟩ := reads j (by simp [hgiven])
      have hjs : js = [] := by simpa [hgiven] using once
      exact ⟨some a,.member (hjs ▸ hgiven) ha⟩

theorem Readable.of_append (h : f.Readable (ms ++ ms')) : f.Readable ms where
  once := by
    have honce := h.once
    rw [given_append,List.length_append] at honce
    omega
  reads j hj := h.reads j (by rw [given_append]; exact List.mem_append_left _ hj)

theorem Met.refuses_iff (h : f.Met ms slot) :
    (if slot.isSome then e = .duplicateField f.name else f.codec.read j = .error e) ↔
      f.Refuses ms j e := by
  constructor
  · intro h'
    cases h with
    | member one reads => exact (show e = _ from h') ▸ .again (by simp [one])
    | absent ungiven => exact .value ungiven h'
  · intro h'
    cases h <;> cases h' <;> simp_all

theorem Met.or_eq_some_iff (h : f.Met ms slot) : slot.or f.absent = some a ↔ f.Holds ms a := by
  constructor
  · intro hor
    cases h with
    | member one reads =>
      cases hor
      exact .member one reads
    | absent ungiven => exact .absent ungiven hor
  · intro hholds
    cases h <;> cases hholds <;> simp_all

theorem Met.or_eq_none_iff (h : f.Met ms slot) :
    slot.or f.absent = none ↔ f.given ms = [] ∧ f.absent = none := by
  cases h <;> simp_all

theorem exists_holds_iff :
    (∃ a, f.Holds ms a) ↔ f.Readable ms ∧ (f.absent = none → f.given ms ≠ []) := by
  constructor
  · rintro ⟨a,⟨one,reads⟩ | ⟨ungiven,stands⟩⟩
    · exact ⟨exists_met_iff.mp ⟨_,.member one reads⟩,fun _ => by simp [one]⟩
    · exact ⟨exists_met_iff.mp ⟨_,.absent ungiven⟩,fun habsent => by simp [habsent] at stands⟩
  · rintro ⟨hreadable,hgiven⟩
    obtain ⟨slot,hslot⟩ := exists_met_iff.mpr hreadable
    cases hor : slot.or f.absent with
    | none =>
      obtain ⟨ungiven,habsent⟩ := hslot.or_eq_none_iff.mp hor
      exact (hgiven habsent ungiven).elim
    | some a => exact ⟨a,hslot.or_eq_some_iff.mp hor⟩

end Field

namespace Fields

section Definitions

variable (ms : List (String × Json))

/-- The fields in order, each with its type. -/
def toList : {αs : List Type} → Fields αs → List ((α : Type) × Field α)
  | _,.nil => []
  | _,.cons f fs => ⟨_,f⟩ :: fs.toList

/-- Every field has its value. -/
def Holds : {αs : List Type} → Fields αs → Row αs → Prop
  | _,.nil,_ => True
  | _,.cons f fs,(a,row) => f.Holds ms a ∧ fs.Holds row

/-- What has been met of every field. -/
def Met : {αs : List Type} → Fields αs → Slots αs → Prop
  | _,.nil,_ => True
  | _,.cons f fs,(slot,s) => f.Met ms slot ∧ fs.Met s

variable {αs : List Type} (fs : Fields αs)

/-- No two fields answer to one name. -/
def Apart : Prop := (fs.toList.flatMap fun f => f.2.names).Nodup

instance : Decidable fs.Apart := inferInstanceAs (Decidable (List.Nodup _))

/-- No field is given twice, and what is given to fields reads. -/
def Readable : Prop := ∀ f ∈ fs.toList, f.2.Readable ms

/-- Besides, every field that is required is given. -/
structure Fits : Prop where
  readable : fs.Readable ms
  complete : ∀ f ∈ fs.toList, f.2.absent = none → f.2.given ms ≠ []

/-- Why a member cannot be taken up after others: its name is no text, or a field refuses it. -/
inductive Stops : Label × Json → Misfit → Prop
  | name {j} : Stops (none,j) .shape
  | field {k j f e} (mem : f ∈ fs.toList) (named : f.2.answersTo k = true)
      (refused : f.2.Refuses ms j e) : Stops (some k,j) e

/-- The first thing that is wrong with an object: a member that cannot be taken up while all before it
are in order, or, with all of them in order, the first field that is required and not given. -/
inductive Fault (ls : List (Label × Json)) : Misfit → Prop
  | member {pre m post e} (split : ls = Json.labelled pre ++ m :: post) (before : fs.Readable pre)
      (stops : fs.Stops pre m e) : Fault ls e
  | missing {ms f} (named : ls = Json.labelled ms) (all : fs.Readable ms)
      (first : FirstIn (fun g => g.2.absent = none → g.2.given ms ≠ [])
        (fun g => g = f ∧ g.2.absent = none ∧ g.2.given ms = []) fs.toList) :
      Fault ls (.missingField f.2.name)

end Definitions

variable {ms ms' : List (String × Json)} {ls pre post : List (Label × Json)} {k k' : String}
  {j : Json} {e : Misfit} {α : Type} {αs : List Type} {f : Field α} {fs : Fields αs}
  {s s' : Slots αs} {row : Row αs}

theorem Apart.tail (h : (cons f fs).Apart) : fs.Apart := by
  rw [Apart,toList,List.flatMap_cons,List.nodup_append] at h
  exact h.2.1

theorem Apart.answersTo (h : (cons f fs).Apart) (hk : f.answersTo k = true) :
    ∀ g ∈ fs.toList, g.2.answersTo k = false := by
  intro g hg
  rw [Apart,toList,List.flatMap_cons,List.nodup_append] at h
  rw [Bool.eq_false_iff,Ne,Field.answersTo_iff]
  intro hgk
  exact h.2.2 k (Field.answersTo_iff.mp hk) k (List.mem_flatMap.mpr ⟨g,hg,hgk⟩) rfl

theorem Apart.not_answersTo_name (h : (cons f fs).Apart) {g : (α : Type) × Field α}
    (hg : g ∈ fs.toList) : f.answersTo g.2.name = false :=
  Bool.eq_false_iff.mpr fun hf => by simpa [g.2.answersTo_name] using h.answersTo hf g hg

theorem Readable.of_append (h : fs.Readable (ms ++ ms')) : fs.Readable ms :=
  fun f hf => (h f hf).of_append

/-! What has been met of the fields tells whether the members can be read. -/

theorem Met.unique (h : fs.Met ms s) (h' : fs.Met ms s') : s = s' := by
  induction fs with
  | nil => rfl
  | cons f fs ih => exact Prod.ext (h.1.unique h'.1) (ih h.2 h'.2)

theorem Met.congr (h : ∀ f ∈ fs.toList, f.2.given ms = f.2.given ms') :
    fs.Met ms s ↔ fs.Met ms' s := by
  induction fs with
  | nil => exact Iff.rfl
  | cons f fs ih =>
    obtain ⟨hf,hfs⟩ := List.forall_mem_cons.mp h
    exact and_congr (Field.Met.congr hf) (ih hfs)

theorem met_append_of_unknown (h : ∀ f ∈ fs.toList, f.2.answersTo k = false) :
    fs.Met (ms ++ [(k,j)]) s ↔ fs.Met ms s :=
  Met.congr fun f hf => Field.given_append_of_not (h f hf)

theorem exists_met_iff : (∃ s, fs.Met ms s) ↔ fs.Readable ms := by
  induction fs with
  | nil => exact iff_of_true ⟨(),trivial⟩ (List.forall_mem_nil _)
  | cons f fs ih =>
    rw [Readable,toList,List.forall_mem_cons]
    refine Iff.trans ?_ (and_congr Field.exists_met_iff ih)
    constructor
    · rintro ⟨⟨slot,s⟩,hslot,hs⟩
      exact ⟨⟨slot,hslot⟩,s,hs⟩
    · rintro ⟨⟨slot,hslot⟩,s,hs⟩
      exact ⟨(slot,s),hslot,hs⟩

theorem met_empty : fs.Met [] (Slots.empty αs) := by
  induction fs with
  | nil => trivial
  | cons f fs ih => exact ⟨.absent rfl,ih⟩

/-! One member. -/

theorem put_cons_of_answersTo (hk : f.answersTo k = true) {slot : Option α} :
    (cons f fs).put k j (slot,s) =
      if slot.isSome then .error (.duplicateField f.name)
      else (f.codec.read j).map fun a => (some a,s) := by
  cases slot <;> simp only [put,hk] <;> rfl

theorem put_cons_of_not (hk : f.answersTo k = false) {slot : Option α} :
    (cons f fs).put k j (slot,s) = (fs.put k j s).map fun s => (slot,s) := by
  simp only [put,hk]
  rfl

theorem put_of_unknown (h : ∀ f ∈ fs.toList, f.2.answersTo k = false) : fs.put k j s = .ok s := by
  induction fs with
  | nil => rfl
  | cons f fs ih =>
    obtain ⟨hf,hfs⟩ := List.forall_mem_cons.mp h
    obtain ⟨slot,s⟩ := s
    rw [put_cons_of_not hf,ih hfs]
    rfl

theorem put_congr (h : ∀ f ∈ fs.toList, f.2.answersTo k = f.2.answersTo k') :
    fs.put k j s = fs.put k' j s := by
  induction fs with
  | nil => rfl
  | cons f fs ih =>
    obtain ⟨hf,hfs⟩ := List.forall_mem_cons.mp h
    obtain ⟨slot,s⟩ := s
    simp only [put,show f.answersTo k = f.answersTo k' from hf,ih hfs]

theorem put_eq_ok_iff (apart : fs.Apart) (hs : fs.Met ms s) :
    fs.put k j s = .ok s' ↔ fs.Met (ms ++ [(k,j)]) s' := by
  induction fs with
  | nil => exact iff_of_true rfl trivial
  | cons f fs ih =>
    obtain ⟨slot,s⟩ := s
    obtain ⟨slot',s'⟩ := s'
    obtain ⟨hslot,hs⟩ := hs
    rw [Met]
    cases hk : f.answersTo k with
    | true =>
      -- The member is none of the later fields', so that these are met as before.
      have hrest : fs.Met (ms ++ [(k,j)]) s' ↔ s = s' := by
        rw [met_append_of_unknown (apart.answersTo hk)]
        exact ⟨hs.unique,fun h => h ▸ hs⟩
      rw [put_cons_of_answersTo hk,Field.met_append_iff hk,hrest]
      cases hslot with
      | member one reads => simp [one]
      | absent ungiven =>
        rw [if_neg (by simp),ungiven]
        refine map_eq_ok_iff.trans ?_
        constructor
        · rintro ⟨a,ha,⟨⟩⟩
          exact ⟨⟨rfl,a,ha,rfl⟩,rfl⟩
        · rintro ⟨⟨-,a,ha,rfl⟩,rfl⟩
          exact ⟨a,ha,rfl⟩
    | false =>
      rw [put_cons_of_not hk,Field.Met.congr (Field.given_append_of_not hk),← ih apart.tail hs]
      refine map_eq_ok_iff.trans ?_
      constructor
      · rintro ⟨t,ht,⟨⟩⟩
        exact ⟨hslot,ht⟩
      · rintro ⟨hslot',ht⟩
        exact ⟨s',ht,by rw [hslot.unique hslot']⟩

theorem put_eq_error_iff (apart : fs.Apart) (hs : fs.Met ms s) :
    fs.put k j s = .error e ↔ ∃ f ∈ fs.toList, f.2.answersTo k = true ∧ f.2.Refuses ms j e := by
  induction fs with
  | nil => simp [put,toList]
  | cons f fs ih =>
    obtain ⟨slot,s⟩ := s
    obtain ⟨hslot,hs⟩ := hs
    simp only [toList,List.mem_cons,or_and_right,exists_or,exists_eq_left]
    cases hk : f.answersTo k with
    | true =>
      have hrest : ¬ ∃ g ∈ fs.toList, g.2.answersTo k = true ∧ g.2.Refuses ms j e := by
        rintro ⟨g,hg,hgk,-⟩
        simp [apart.answersTo hk g hg] at hgk
      rw [put_cons_of_answersTo hk,or_iff_left hrest,and_iff_right rfl,← hslot.refuses_iff]
      cases slot with
      | some a => exact ⟨fun h => (Except.error.inj h).symm,fun h => congrArg Except.error h.symm⟩
      | none => exact map_eq_error_iff
    | false =>
      rw [put_cons_of_not hk,or_iff_right (by simp),← ih apart.tail hs]
      exact map_eq_error_iff

theorem stops_none_iff : fs.Stops ms (none,j) e ↔ e = .shape := by
  constructor
  · rintro ⟨⟩
    rfl
  · rintro rfl
    exact .name

theorem stops_some_iff : fs.Stops ms (some k,j) e ↔
    ∃ f ∈ fs.toList, f.2.answersTo k = true ∧ f.2.Refuses ms j e := by
  constructor
  · rintro (_ | ⟨mem,named,refused⟩)
    exact ⟨_,mem,named,refused⟩
  · rintro ⟨f,mem,named,refused⟩
    exact .field mem named refused

/-- While members are taken up their names are texts. -/
theorem pictures (apart : fs.Apart) :
    Pictures fs.member (fun ls s => ∃ ms, ls = Json.labelled ms ∧ fs.Met ms s)
      fun ls m e => ∃ ms, ls = Json.labelled ms ∧ fs.Stops ms m e where
  unique := by
    rintro _ s s' ⟨ms,rfl,hs⟩ hs'
    exact hs.unique (Json.exists_labelled_eq_iff.mp hs')
  earlier := by
    rintro ls m s ⟨ms,hms,hs⟩
    obtain ⟨pre,rest,rfl,rfl,-⟩ := List.map_eq_append_iff.mp hms.symm
    obtain ⟨s,hs⟩ := exists_met_iff.mpr (exists_met_iff.mp ⟨s,hs⟩).of_append
    exact ⟨s,pre,rfl,hs⟩
  ok := by
    rintro _ s ⟨ms,rfl,hs⟩ ⟨label,j⟩ s'
    cases label with
    | none =>
      refine iff_of_false nofun ?_
      rintro ⟨ms',hms',-⟩
      exact Json.exists_labelled_iff.mp ⟨ms',hms'⟩ (none,j) (by simp) rfl
    | some k =>
      rw [← Json.labelled_concat,Json.exists_labelled_eq_iff]
      exact put_eq_ok_iff apart hs
  error := by
    rintro _ s ⟨ms,rfl,hs⟩ ⟨label,j⟩ e
    rw [Json.exists_labelled_eq_iff]
    cases label with
    | none =>
      rw [stops_none_iff]
      exact ⟨fun h => (Except.error.inj h).symm,fun h => congrArg Except.error h.symm⟩
    | some k => exact (put_eq_error_iff apart hs).trans stops_some_iff.symm

/-! The end of the object. -/

theorem fill_cons {slot : Option α} :
    (cons f fs).fill (slot,s) = match slot.or f.absent with
      | none => .error (.missingField f.name)
      | some a => (fs.fill s).map fun row => (a,row) := by
  rw [fill]
  cases slot.or f.absent <;> rfl

theorem fill_eq_ok_iff (hs : fs.Met ms s) : fs.fill s = .ok row ↔ fs.Holds ms row := by
  induction fs with
  | nil => exact iff_of_true rfl trivial
  | cons f fs ih =>
    obtain ⟨slot,s⟩ := s
    obtain ⟨a,row⟩ := row
    obtain ⟨hslot,hs⟩ := hs
    rw [Holds,← hslot.or_eq_some_iff,← ih hs,fill_cons]
    cases slot.or f.absent with
    | none => simp
    | some b =>
      refine map_eq_ok_iff.trans ?_
      constructor
      · rintro ⟨row',hrow,⟨⟩⟩
        exact ⟨rfl,hrow⟩
      · rintro ⟨⟨⟩,hrow⟩
        exact ⟨row,hrow,rfl⟩

theorem fill_eq_error_iff (hs : fs.Met ms s) :
    fs.fill s = .error e ↔ ∃ f, e = .missingField f.2.name ∧
      FirstIn (fun g => g.2.absent = none → g.2.given ms ≠ [])
        (fun g => g = f ∧ g.2.absent = none ∧ g.2.given ms = []) fs.toList := by
  induction fs with
  | nil => simp [fill,toList,firstIn_nil]
  | cons f fs ih =>
    obtain ⟨slot,s⟩ := s
    obtain ⟨hslot,hs⟩ := hs
    have hnone := hslot.or_eq_none_iff
    simp only [toList,firstIn_cons]
    rw [fill_cons]
    cases hor : slot.or f.absent with
    | none =>
      obtain ⟨hungiven,habsent⟩ := hnone.mp hor
      constructor
      · rintro ⟨⟩
        exact ⟨⟨_,f⟩,rfl,.inl ⟨rfl,habsent,hungiven⟩⟩
      · rintro ⟨g,rfl,⟨rfl,-⟩ | ⟨hgiven,-⟩⟩
        · rfl
        · exact (hgiven habsent hungiven).elim
    | some a =>
      have hgiven : f.absent = none → f.given ms ≠ [] := fun habsent hungiven => by
        simp [hnone.mpr ⟨hungiven,habsent⟩] at hor
      refine map_eq_error_iff.trans ((ih hs).trans (exists_congr fun g => and_congr_right fun _ => ?_))
      rw [or_iff_right fun h => hgiven h.2.1 h.2.2,and_iff_right hgiven]

theorem exists_holds_iff : (∃ row, fs.Holds ms row) ↔ fs.Fits ms := by
  have hsplit : fs.Fits ms ↔
      ∀ f ∈ fs.toList, f.2.Readable ms ∧ (f.2.absent = none → f.2.given ms ≠ []) :=
    ⟨fun h f hf => ⟨h.readable f hf,h.complete f hf⟩,
      fun h => ⟨fun f hf => (h f hf).1,fun f hf => (h f hf).2⟩⟩
  rw [hsplit]
  clear hsplit
  induction fs with
  | nil => exact iff_of_true ⟨(),trivial⟩ (List.forall_mem_nil _)
  | cons f fs ih =>
    rw [toList,List.forall_mem_cons]
    refine Iff.trans ?_ (and_congr Field.exists_holds_iff ih)
    constructor
    · rintro ⟨⟨a,row⟩,ha,hrow⟩
      exact ⟨⟨a,ha⟩,row,hrow⟩
    · rintro ⟨⟨a,ha⟩,row,hrow⟩
      exact ⟨(a,row),ha,hrow⟩

/-! The whole object. -/

/-- An object is taken just if its names are texts and every field has its value. -/
theorem readMembers_eq_ok_iff (apart : fs.Apart) :
    fs.readMembers ls = .ok row ↔ ∃ ms, ls = Json.labelled ms ∧ fs.Holds ms row := by
  have hfold {s} : ls.foldlM fs.member (Slots.empty αs) = .ok s ↔
      ∃ ms, ls = Json.labelled ms ∧ fs.Met ms s :=
    (fs.pictures apart).foldlM_eq_ok_iff ⟨[],rfl,met_empty⟩
  refine bind_eq_ok_iff.trans ?_
  constructor
  · rintro ⟨s,hs,hrow⟩
    obtain ⟨ms,rfl,hms⟩ := hfold.mp hs
    exact ⟨ms,rfl,(fill_eq_ok_iff hms).mp hrow⟩
  · rintro ⟨ms,rfl,hrow⟩
    obtain ⟨s,hs⟩ := exists_met_iff.mpr (exists_holds_iff.mp ⟨row,hrow⟩).readable
    exact ⟨s,hfold.mpr ⟨ms,rfl,hs⟩,(fill_eq_ok_iff hs).mpr hrow⟩

theorem readMembers_labelled_eq_ok_iff (apart : fs.Apart) :
    fs.readMembers (Json.labelled ms) = .ok row ↔ fs.Holds ms row := by
  rw [readMembers_eq_ok_iff apart,Json.exists_labelled_eq_iff]

theorem readMembers_eq_error_iff (apart : fs.Apart) :
    fs.readMembers ls = .error e ↔ fs.Fault ls e := by
  have hpictures := fs.pictures apart
  have hempty : ∃ ms, [] = Json.labelled ms ∧ fs.Met ms (Slots.empty αs) := ⟨[],rfl,met_empty⟩
  refine (bind_eq_error_iff.trans (or_congr_left (hpictures.foldlM_eq_error_iff hempty))).trans ?_
  simp only [List.nil_append]
  -- Either a member stops the fold, or all members pass and a field turns out to be missing.
  constructor
  · rintro (⟨_,m,post,rfl,⟨s,hs⟩,pre,rfl,hstops⟩ | ⟨s,hs,herror⟩)
    · exact .member rfl (exists_met_iff.mp ⟨s,Json.exists_labelled_eq_iff.mp hs⟩) hstops
    · obtain ⟨ms,rfl,hms⟩ := (hpictures.foldlM_eq_ok_iff hempty).mp hs
      obtain ⟨f,rfl,hfirst⟩ := (fill_eq_error_iff hms).mp herror
      exact .missing rfl (exists_met_iff.mp ⟨s,hms⟩) hfirst
  · rintro (⟨rfl,hpre,hstops⟩ | ⟨rfl,hall,hfirst⟩)
    · obtain ⟨s,hs⟩ := exists_met_iff.mpr hpre
      exact .inl ⟨_,_,_,rfl,⟨s,_,rfl,hs⟩,_,rfl,hstops⟩
    · obtain ⟨s,hs⟩ := exists_met_iff.mpr hall
      exact .inr ⟨s,(hpictures.foldlM_eq_ok_iff hempty).mpr ⟨_,rfl,hs⟩,
        (fill_eq_error_iff hs).mpr ⟨_,rfl,hfirst⟩⟩

theorem readMembers_congr (h : ∀ f ∈ fs.toList, f.2.answersTo k = f.2.answersTo k') :
    fs.readMembers (pre ++ (some k,j) :: post) = fs.readMembers (pre ++ (some k',j) :: post) := by
  simp only [readMembers,List.foldlM_append,List.foldlM_cons,member,put_congr h]

theorem readMembers_of_unknown (h : ∀ f ∈ fs.toList, f.2.answersTo k = false) :
    fs.readMembers (pre ++ (some k,j) :: post) = fs.readMembers (pre ++ post) := by
  simp only [readMembers,List.foldlM_append,List.foldlM_cons,member,put_of_unknown h]
  rfl

theorem Holds.perm (h : ms.Perm ms') (hms : fs.Holds ms row) : fs.Holds ms' row := by
  induction fs with
  | nil => trivial
  | cons f fs ih => exact ⟨hms.1.perm h,ih hms.2⟩

theorem Holds.of_given (h : ∀ f ∈ fs.toList, f.2.given ms = f.2.given ms') (hms : fs.Holds ms row) :
    fs.Holds ms' row := by
  induction fs with
  | nil => trivial
  | cons f fs ih =>
    obtain ⟨hf,hfs⟩ := List.forall_mem_cons.mp h
    exact ⟨hms.1.of_given hf,ih hfs hms.2⟩

end Fields

/-- Objects are read for a record by the names of its fields. -/
structure Codec.ReadsByName {ρ : Type} {αs : List Type} (c : Codec ρ) (fs : Fields αs)
    (ofRow : Row αs → ρ) : Prop where
  /-- An object is taken just if its names are texts, no field occurs twice, what is given to fields
  reads, and the required ones occur. -/
  accepts : ∀ ls, (∃ r, c.read (.object ls) = .ok r) ↔ ∃ ms, ls = Json.labelled ms ∧ fs.Fits ms
  /-- Every field then has what its member says, or the value for an absent field. -/
  gives : ∀ ls r, c.read (.object ls) = .ok r ↔
    ∃ ms row, ls = Json.labelled ms ∧ fs.Holds ms row ∧ ofRow row = r
  /-- Otherwise the first fault is reported. -/
  refuses : ∀ ls e, c.read (.object ls) = .error e ↔ fs.Fault ls e
  /-- The order of the members is of no account. -/
  order : ∀ ls ls', ls.Perm ls' → ∀ r, c.read (.object ls) = .ok r → c.read (.object ls') = .ok r
  /-- Names of one field may stand for each other. -/
  spelling : ∀ k k', (∀ f ∈ fs.toList, f.2.answersTo k = f.2.answersTo k') → ∀ pre j post,
    c.read (.object (pre ++ (some k,j) :: post)) = c.read (.object (pre ++ (some k',j) :: post))
  /-- Members that belong to no field may as well be left out, whatever their values are. -/
  unknown : ∀ k, (∀ f ∈ fs.toList, f.2.answersTo k = false) → ∀ pre j post,
    c.read (.object (pre ++ (some k,j) :: post)) = c.read (.object (pre ++ post))
  /-- The optional fields are those that may be `null`. -/
  nulls : ∀ f ∈ fs.toList, (∃ a, f.2.codec.read .null = .ok a) ↔ Field.IsOptional f
  /-- What is no container is no record. -/
  containers : ∀ j, (∀ ls, j ≠ .object ls) → (∀ js, j ≠ .array js) → c.read j = .error .shape
  /-- A text that holds an object is read as its members are. -/
  texts : ∀ text ls, Json.parse text = some (.object ls) →
    c.readText text = (c.read (.object ls)).mapError .misfit

theorem Field.nulls_of_error {α : Type} {f : Field α} {e : Misfit}
    (h : f.codec.read .null = .error e) :
    (∃ a, f.codec.read .null = .ok a) ↔ Field.IsOptional ⟨α,f⟩ := by
  refine iff_of_false (by simp [h]) fun hopt => ?_
  cases hopt with
  | intro name codec => cases h

theorem Field.nulls_optional {α : Type} (name : String) (c : Codec α) :
    (∃ a, (Field.optional name c).codec.read .null = .ok a) ↔ IsOptional ⟨_,.optional name c⟩ :=
  iff_of_true ⟨none,rfl⟩ (.intro name c)

/-- What a field holds that is not given. -/
theorem Field.ungiven_holds {α : Type} (name : String) (c : Codec α) :
    (∀ a, ¬ (required name c).Holds [] a) ∧ (∀ d a, (defaulted name c d).Holds [] a ↔ a = d) ∧
      ∀ o, (Field.optional name c).Holds [] o ↔ o = none := by
  simp [holds_nil_iff,required,defaulted,Field.optional,eq_comm]

theorem Fields.readsByName {ρ : Type} {αs : List Type} {fs : Fields αs} {ofRow : Row αs → ρ}
    (toRow : ρ → Row αs) (apart : fs.Apart)
    (nulls : ∀ f ∈ fs.toList, (∃ a, f.2.codec.read .null = .ok a) ↔ Field.IsOptional f) :
    (fs.codec ofRow toRow).ReadsByName fs ofRow := by
  have hgives (ls : List (Label × Json)) (r : ρ) :
      (fs.codec ofRow toRow).read (.object ls) = .ok r ↔
        ∃ ms row, ls = Json.labelled ms ∧ fs.Holds ms row ∧ ofRow row = r := by
    refine map_eq_ok_iff.trans ?_
    simp only [readMembers_eq_ok_iff apart]
    constructor
    · rintro ⟨row,⟨ms,hms,hrow⟩,hr⟩
      exact ⟨ms,row,hms,hrow,hr⟩
    · rintro ⟨ms,row,hms,hrow,hr⟩
      exact ⟨row,⟨ms,hms,hrow⟩,hr⟩
  refine ⟨fun ls => ?_,hgives,fun ls e => ?_,fun ls ls' h r => ?_,fun k k' h pre j post => ?_,
    fun k h pre j post => ?_,nulls,fun j hobject harray => ?_,fun text ls h => ?_⟩
  · simp only [hgives,← exists_holds_iff]
    constructor
    · rintro ⟨_,ms,row,hms,hrow,-⟩
      exact ⟨ms,hms,row,hrow⟩
    · rintro ⟨ms,hms,row,hrow⟩
      exact ⟨_,ms,row,hms,hrow,rfl⟩
  · rw [← readMembers_eq_error_iff apart]
    exact map_eq_error_iff
  · simp only [hgives]
    rintro ⟨ms,row,rfl,hrow,rfl⟩
    obtain ⟨ms',rfl,hms'⟩ := Json.exists_labelled_of_perm h
    exact ⟨ms',row,rfl,hrow.perm hms',rfl⟩
  · exact congrArg (ofRow <$> ·) (readMembers_congr h)
  · exact congrArg (ofRow <$> ·) (readMembers_of_unknown h)
  · cases j with
    | object ls => exact absurd rfl (hobject ls)
    | array js => exact absurd rfl (harray js)
    | _ => rfl
  · exact Codec.readText_of_parse h

/-- Objects are read by the names of fields for offers and tasks with their parts, for filters and
for the settings. In a filter the kind and the values may each go by a second name. A field that is
not given has no value if it is required, and otherwise its default or none. What a field is given is
read as its type says: a text, a double, a machine word, a variant, a list of these or of records, or
what may be absent. -/
theorem records_read_by_name :
    Offer.codec.ReadsByName
      (.cons (.required "id" .string) <| .cons (.defaulted "agent_id" .string "") <|
        .cons (.defaulted "hostname" .string "") <|
        .cons (.defaulted "resources" (.list Resource.codec) []) <|
        .cons (.defaulted "attributes" (.list Attribute.codec) []) .nil)
      (fun (i,a,h,rs,as,_) => ⟨i,a,h,rs,as⟩) ∧
    Resource.codec.ReadsByName
      (.cons (.required "name" .string) <| .cons (.optional "scalar" .double) <|
        .cons (.optional "disk" Disk.codec) .nil)
      (fun (n,x,d,_) => ⟨n,x,d⟩) ∧
    Disk.codec.ReadsByName
      (.cons (.optional "persistence_id" .string) <| .cons (.optional "principal" .string) <|
        .cons (.optional "container_path" .string) <| .cons (.optional "host_path" .string) .nil)
      (fun (v,p,c,h,_) => ⟨v,p,c,h⟩) ∧
    ValueRange.codec.ReadsByName
      (.cons (.required "begin" .word) <| .cons (.required "end" .word) .nil)
      (fun (a,b,_) => ⟨a,b⟩) ∧
    Task.codec.ReadsByName
      (.cons (.required "name" .string) <| .cons (.defaulted "task_id" .string "") <|
        .cons (.defaulted "resources" (.list Resource.codec) []) .nil)
      (fun (n,i,rs,_) => ⟨n,i,rs⟩) ∧
    Filter.codec.ReadsByName
      (.cons (.orNamed (.required "kind" .string) "type") <|
        .cons (.orNamed (.defaulted "values" (.list .string) []) "value") .nil)
      (fun (k,vs,_) => ⟨k,vs⟩) ∧
    (∀ f ∈ Filter.fields.toList, f.2.answersTo "type" = f.2.answersTo "kind" ∧
      f.2.answersTo "value" = f.2.answersTo "values") ∧
    AllocatorSettings.codec.ReadsByName
      (.cons (.defaulted "filter_mode" FilterMode.codec .textOnly) <|
        .cons (.defaulted "default_strategy" Strategy.codec .nonMux) .nil)
      (fun (m,s,_) => ⟨m,s⟩) ∧
    Config.codec.ReadsByName
      (.cons (.defaulted "allocator" AllocatorSettings.codec ⟨.textOnly,.nonMux⟩) .nil)
      (fun (a,_) => ⟨a⟩) ∧
    (∀ {α : Type} (name : String) (c : Codec α),
      (∀ a, ¬ (Field.required name c).Holds [] a) ∧
      (∀ d a, (Field.defaulted name c d).Holds [] a ↔ a = d) ∧
      ∀ o, (Field.optional name c).Holds [] o ↔ o = none) ∧
    Codec.string.ReadsAs (fun j s => j = .string s) ∧
    Codec.double.ReadsAs (fun j x => j = .real x ∨ ∃ n, j = .natural n ∧ x = nearestDouble n) ∧
    Codec.word.ReadsAs (fun j n => j = .natural n.toNat) ∧
    FilterMode.codec.ReadsNamed [("text-only",.textOnly),("full",.full)] ∧
    Strategy.codec.ReadsNamed [("non-mux",.nonMux),("mux",.mux)] ∧
    (∀ {α : Type} (c : Codec α), c.list.ReadsEach c) ∧
    ∀ {α : Type} (c : Codec α), c.option.ReadsOrNull c := by
  refine ⟨?_,?_,?_,?_,?_,?_,by decide,?_,?_,Field.ungiven_holds,Codec.reads_string,
    Codec.reads_double,Codec.reads_word,Codec.reads_variant (by decide) _,
    Codec.reads_variant (by decide) _,Codec.reads_list,Codec.reads_option⟩
  all_goals
    refine Fields.readsByName _ (by decide) ?_
    simp only [Offer.fields,Resource.fields,Disk.fields,ValueRange.fields,Task.fields,Filter.fields,
      AllocatorSettings.fields,Config.fields,Fields.toList,List.forall_mem_cons]
    repeat' apply And.intro
    -- A field is an optional one, or its codec has no value for null.
    all_goals first
      | exact Field.nulls_optional _ _
      | exact Field.nulls_of_error rfl
      | exact List.forall_mem_nil _

example : Filter.codec.read (.record [("colour",.null),("type",.string "set"),("kind",.null)]) =
    .error (.duplicateField "kind") := rfl

/-- What no field asks for may be void; the fault is that a field is missing. -/
example : Task.codec.readText "\x7b\"z\":\"\\ud800\"\x7d" =
    .error (.misfit (.missingField "name")) := rfl

/-- A name that spells no text is refused even where no field would have it. -/
theorem unspelt_name_refused :
    let text := "\x7b\"name\":\"a\",\"\\ud800\":null\x7d"
    let ls : List (Label × Json) := [(some "name",.string "a"),(none,.null)]
    Json.parse text = some (.object ls) ∧ Task.codec.read (.object (ls.take 1)) = .ok ⟨"a","",[]⟩ ∧
      Task.codec.readText text = .error (.misfit .shape) := by
  intro text ls
  have hparse : Json.parse text = some (.object ls) := by
    unfold text ls
    rfl
  refine ⟨hparse,rfl,?_⟩
  rw [Codec.readText_of_parse hparse]
  rfl

end OfferAllocation
