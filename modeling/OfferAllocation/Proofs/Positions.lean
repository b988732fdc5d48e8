import Mathlib.Logic.Relation
import OfferAllocation.Proofs.Attributes

/-! Records read from arrays. An array gives the fields of a record by their positions, and it is taken
just if the object is that gives the same values by the names of the fields. So within a document each
record may be in the one form or the other. -/
namespace OfferAllocation

namespace Json

variable {j j' : Json}

theorem sound_array_congr (before after : List Json) (h : j.sound = j'.sound) :
    (array (before ++ j :: after)).sound = (array (before ++ j' :: after)).sound := by
  simp only [sound]
  rw [Bool.eq_iff_iff,soundItems_iff,soundItems_iff,List.forall_mem_append,List.forall_mem_append,
    List.forall_mem_cons,List.forall_mem_cons,h]

theorem sound_record_congr {k : String} {before after : List (String × Json)}
    (h : j.sound = j'.sound) :
    (record (before ++ (k,j) :: after)).sound = (record (before ++ (k,j') :: after)).sound := by
  rw [Bool.eq_iff_iff,sound_record_iff,sound_record_iff,List.forall_mem_append,
    List.forall_mem_append,List.forall_mem_cons,List.forall_mem_cons,h]

theorem sound_record_zip {names : List String} {vs : List Json} (h : vs.length ≤ names.length) :
    (record (names.zip vs)).sound = (array vs).sound := by
  have hvalues : (names.zip vs).map Prod.snd = vs := List.map_snd_zip h
  rw [Bool.eq_iff_iff,sound_record_iff,sound,soundItems_iff,← hvalues,List.forall_mem_map]
  rw [hvalues]

end Json

namespace Fields

variable {α : Type} {αs : List Type} {f : Field α} {fs : Fields αs} {row : Row αs} {vs : List Json}

/-- The names of the fields in order. -/
def names {αs : List Type} (fs : Fields αs) : List String := fs.toList.map fun f => f.2.name

/-- What later fields are given under their names is not given to the first. -/
theorem Apart.given_zip_names (apart : (cons f fs).Apart) (vs : List Json) :
    f.given (fs.names.zip vs) = [] := by
  refine Field.given_eq_nil fun m hm => ?_
  obtain ⟨g,hg,hname⟩ := List.mem_map.mp (List.of_mem_zip (b := m.2) hm).1
  rw [← hname]
  exact apart.not_answersTo_name hg

theorem readItems_nil_cons : (cons f fs).readItems [] = match f.absent with
    | none => .error .shape
    | some a => (fs.readItems []).map fun row => (a,row) := by
  rw [readItems]
  cases f.absent <;> rfl

/-- An array gives each field what the object gives it that has its items under the names. -/
theorem readItems_eq_ok_iff (apart : fs.Apart) (h : vs.length ≤ fs.names.length) :
    fs.readItems vs = .ok row ↔ fs.Holds (fs.names.zip vs) row := by
  induction fs generalizing vs with
  | nil =>
    obtain rfl : vs = [] := List.length_eq_zero_iff.mp (Nat.le_zero.mp h)
    exact iff_of_true rfl trivial
  | cons f fs ih =>
    obtain ⟨a,row⟩ := row
    have hothers {v : Json} {vs : List Json} : fs.Holds ((f.name,v) :: fs.names.zip vs) row ↔
        fs.Holds (fs.names.zip vs) row := by
      have hgiven (g) (hg : g ∈ fs.toList) :
          g.2.given ((f.name,v) :: fs.names.zip vs) = g.2.given (fs.names.zip vs) :=
        Field.given_cons_of_not (apart.answersTo f.answersTo_name g hg)
      exact ⟨.of_given hgiven,.of_given fun g hg => (hgiven g hg).symm⟩
    cases vs with
    | nil =>
      have hnil : fs.Holds [] row ↔ fs.readItems [] = .ok row := by
        rw [ih apart.tail (Nat.zero_le _),List.zip_nil_right]
      rw [readItems_nil_cons,List.zip_nil_right,Holds,hnil]
      cases habsent : f.absent with
      | none =>
        refine iff_of_false (by simp) ?_
        rintro ⟨⟨one,-⟩ | ⟨-,stands⟩,-⟩
        · cases one
        · simp [habsent] at stands
      | some a' =>
        refine map_eq_ok_iff.trans ?_
        constructor
        · rintro ⟨row',hrow,⟨⟩⟩
          exact ⟨.absent rfl habsent,hrow⟩
        · rintro ⟨⟨one,-⟩ | ⟨-,stands⟩,hrow⟩
          · cases one
          · obtain rfl := Option.some.inj (habsent.symm.trans stands)
            exact ⟨row,hrow,rfl⟩
    | cons v vs =>
      have hread : (cons f fs).readItems (v :: vs) =
          (f.codec.read v).bind fun a => (fs.readItems vs).map fun row => (a,row) := rfl
      have hone : f.given ((f.name,v) :: fs.names.zip vs) = [v] := by
        rw [Field.given_cons_of_answersTo f.answersTo_name,apart.given_zip_names]
      rw [hread,show (cons f fs).names.zip (v :: vs) = (f.name,v) :: fs.names.zip vs from rfl,Holds,
        hothers,← ih apart.tail (Nat.le_of_succ_le_succ h)]
      refine bind_eq_ok_iff.trans ?_
      simp only [map_eq_ok_iff]
      constructor
      · rintro ⟨a,ha,row,hrow,⟨⟩⟩
        exact ⟨.member hone ha,hrow⟩
      · rintro ⟨⟨one,reads⟩ | ⟨ungiven,-⟩,hrow⟩
        · obtain rfl := List.singleton_inj.mp (hone.symm.trans one)
          exact ⟨a,reads,row,hrow,rfl⟩
        · simp [hone] at ungiven

/-- Where there are more items than fields the array is refused. -/
theorem readItems_ne_ok (h : fs.names.length < vs.length) : fs.readItems vs ≠ .ok row := by
  induction fs generalizing vs with
  | nil =>
    cases vs with
    | nil => simp at h
    | cons v vs => exact nofun
  | cons f fs ih =>
    cases vs with
    | nil => simp at h
    | cons v vs =>
      intro hread
      obtain ⟨a,-,hread⟩ := bind_eq_ok_iff.mp hread
      obtain ⟨row',hrow,-⟩ := map_eq_ok_iff.mp hread
      exact ih (Nat.lt_of_succ_lt_succ h) hrow

/-- An item stands for another that reads alike. -/
theorem readItems_congr {g : (α : Type) × Field α} {j j' : Json} {before after : List Json}
    (place : fs.toList[before.length]? = some g)
    (h : ∀ a, g.2.codec.read j = .ok a ↔ g.2.codec.read j' = .ok a) :
    fs.readItems (before ++ j :: after) = .ok row ↔
      fs.readItems (before ++ j' :: after) = .ok row := by
  induction fs generalizing before with
  | nil => simp [toList] at place
  | cons f fs ih =>
    have hread (v : Json) (vs : List Json) : (cons f fs).readItems (v :: vs) = .ok row ↔
        ∃ a, f.codec.read v = .ok a ∧ ∃ rest, fs.readItems vs = .ok rest ∧ (a,rest) = row := by
      refine bind_eq_ok_iff.trans (exists_congr fun a => and_congr_right fun _ => ?_)
      exact map_eq_ok_iff
    cases before with
    | nil =>
      obtain rfl : ⟨_,f⟩ = g := by simpa [toList] using place
      rw [List.nil_append,List.nil_append,hread,hread]
      simp only [h]
    | cons v before =>
      have hrest (rest) : fs.readItems (before ++ j :: after) = .ok rest ↔
          fs.readItems (before ++ j' :: after) = .ok rest := ih (by simpa [toList] using place)
      rw [List.cons_append,List.cons_append,hread,hread]
      simp only [hrest]

end Fields

section Member

variable {k : String} {j j' : Json} {before after : List (String × Json)}

/-- A member stands for another of its name from which the same is read. -/
theorem Field.Holds.of_member {α : Type} {f : Field α} {a : α} (named : f.answersTo k = true)
    (h : ∀ a, f.codec.read j = .ok a → f.codec.read j' = .ok a)
    (ha : f.Holds (before ++ (k,j) :: after) a) : f.Holds (before ++ (k,j') :: after) a := by
  have hgiven (j : Json) :
      f.given (before ++ (k,j) :: after) = f.given before ++ j :: f.given after := by
    rw [given_append,given_cons_of_answersTo named]
  cases ha with
  | member one reads =>
    rw [hgiven,List.append_eq_singleton_iff] at one
    obtain ⟨hbefore,hj⟩ | ⟨-,hj⟩ := one
    · obtain ⟨rfl,hafter⟩ := List.cons_eq_cons.mp hj
      exact .member (by rw [hgiven,hbefore,hafter,List.nil_append]) (h a reads)
    · cases hj
  | absent ungiven => simp [hgiven] at ungiven

theorem Fields.Holds.of_member {αs : List Type} {fs : Fields αs} {row : Row αs}
    {g : (α : Type) × Field α} (apart : fs.Apart) (mem : g ∈ fs.toList)
    (named : g.2.answersTo k = true) (h : ∀ a, g.2.codec.read j = .ok a → g.2.codec.read j' = .ok a)
    (hrow : fs.Holds (before ++ (k,j) :: after) row) : fs.Holds (before ++ (k,j') :: after) row := by
  induction fs with
  | nil => trivial
  | cons f fs ih =>
    obtain ⟨a,row⟩ := row
    obtain ⟨ha,hrow⟩ := hrow
    have hgiven {β : Type} {f : Field β} (hf : f.answersTo k = false) :
        f.given (before ++ (k,j) :: after) = f.given (before ++ (k,j') :: after) := by
      rw [Field.given_append,Field.given_append,Field.given_cons_of_not hf,
        Field.given_cons_of_not hf]
    obtain rfl | hmem := List.mem_cons.mp mem
    · exact ⟨ha.of_member named h,hrow.of_given fun g hg => hgiven (apart.answersTo named g hg)⟩
    · have hf : f.answersTo k = false :=
        Bool.eq_false_iff.mpr fun hf => by simpa [named] using apart.answersTo hf g hmem
      exact ⟨ha.of_given (hgiven hf),ih apart.tail hmem hrow⟩

end Member

namespace Codec

variable {α : Type} {read : Json → Except Misfit α} {j j' : Json} {before after : List Json}

theorem readItems_congr {as : List α} (h : ∀ a, read j = .ok a ↔ read j' = .ok a) :
    readItems read (before ++ j :: after) = .ok as ↔
      readItems read (before ++ j' :: after) = .ok as := by
  simp only [readItems_eq_ok_iff]
  induction before generalizing as with
  | nil => simp only [List.nil_append,List.forall₂_cons_left_iff,h]
  | cons v before ih => simp only [List.cons_append,List.forall₂_cons_left_iff,ih]

end Codec

namespace AttributeValue

variable {read : Json → Except Misfit FilterKind} {j j' : Json} {kind : FilterKind}
  {v : AttributeValue}

/-- Ranges may be given in any form that reads alike; with any other kind the payload is refused in
whatever form. -/
theorem readPayload_congr {before after : List Json}
    (h : ∀ r, ValueRange.codec.read j = .ok r ↔ ValueRange.codec.read j' = .ok r)
    (hj : ∀ s, Codec.string.read j ≠ .ok s) (hj' : ∀ s, Codec.string.read j' ≠ .ok s) :
    readPayload kind (.array (before ++ j :: after)) = .ok v ↔
      readPayload kind (.array (before ++ j' :: after)) = .ok v := by
  cases kind with
  | scalar => rfl
  | text => rfl
  | set =>
    refine map_eq_ok_iff.trans (Iff.trans (exists_congr fun items => and_congr_left fun _ => ?_)
      map_eq_ok_iff.symm)
    exact Codec.readItems_congr fun s => iff_of_false (hj s) (hj' s)
  | ranges =>
    refine map_eq_ok_iff.trans (Iff.trans (exists_congr fun rs => and_congr_left fun _ => ?_)
      map_eq_ok_iff.symm)
    exact Codec.readItems_congr h

/-- A payload stands for another from which the same is read, and which is as fit to be set aside. -/
theorem readParts_of_payload {before after : List (Part × Json)} (hsound : j.sound = j'.sound)
    (h : ∀ kind v, readPayload kind j = .ok v → readPayload kind j' = .ok v)
    (hparts : readParts read (before ++ (.payload,j) :: after) = .ok v) :
    readParts read (before ++ (.payload,j') :: after) = .ok v := by
  rw [readParts_eq_ok_iff] at hparts ⊢
  obtain ⟨t,j₀,kind,hps,hkind,hv⟩ := hparts
  -- The payload is the second part or the first, and there is no other.
  match before with
  | [] =>
    simp only [List.nil_append,List.cons.injEq,Prod.mk.injEq,reduceCtorEq,false_and,true_and,
      false_or] at hps
    obtain ⟨⟨rfl,rfl⟩,hj⟩ := hps
    exact ⟨t,j',kind,.inr ⟨rfl,hsound ▸ hj⟩,hkind,h kind v hv⟩
  | [(p,x)] =>
    simp only [List.cons_append,List.nil_append,List.cons.injEq,Prod.mk.injEq,true_and,
      reduceCtorEq,false_and,and_false,or_false] at hps
    obtain ⟨⟨rfl,rfl⟩,rfl,rfl⟩ := hps
    exact ⟨x,j',kind,.inl rfl,hkind,h kind v hv⟩
  | _ :: _ :: _ => simp at hps

/-- A pair has the name of a kind in front, and a payload of that kind. -/
theorem readPair_eq_ok_iff {js : List Json} : readPair js = .ok v ↔
    ∃ (kind : FilterKind) (p : Json),
      js = [.string kind.name,p] ∧ readPayload kind p = .ok v := by
  constructor
  · intro h
    match js with
    | [] => cases h
    | .string s :: js =>
      obtain ⟨kind,hkind,hrest⟩ := bind_eq_ok_iff.mp h
      rw [FilterKind.variantNamed_table_iff] at hkind
      match js with
      | [] => cases hrest
      | p :: js =>
        obtain ⟨v',hv,hrest⟩ := bind_eq_ok_iff.mp hrest
        match js with
        | [] =>
          cases hrest
          exact ⟨kind,p,by rw [hkind],hv⟩
        | _ :: _ => cases hrest
    | .null :: _ | .bool _ :: _ | .natural _ :: _ | .real _ :: _ | .void :: _ | .array _ :: _
    | .object _ :: _ => cases h
  · rintro ⟨kind,p,rfl,hv⟩
    refine bind_eq_ok_iff.mpr ⟨kind,FilterKind.variantNamed_table_iff.mpr rfl,?_⟩
    exact bind_eq_ok_iff.mpr ⟨v,hv,rfl⟩

/-- Beside its name a tag may be an object, whose one member has the name of a kind and is `null`. -/
theorem readTag_eq_ok_iff_or {t : Json} :
    readTag t = .ok kind ↔ t = .string kind.name ∨ t = .record [(kind.name,.null)] := by
  have hname {s : String} : (s,kind) ∈ FilterKind.table ↔ s = kind.name := by
    rw [← Codec.variantNamed_eq_ok_iff_mem (by decide),FilterKind.variantNamed_table_iff]
  refine ((Codec.reads_variant (by decide) FilterKind.name).takes t kind).trans ?_
  simp only [hname,exists_eq_right]
  constructor
  · intro h
    cases h with
    | text => exact .inl rfl
    | object => exact .inr rfl
  · rintro (rfl | rfl)
    · exact .text _
    · exact .object _

theorem read_members_eq_ok_iff {t p : Json} : codec.read (.record [("type",t),("value",p)]) = .ok v ↔
    ∃ kind, readTag t = .ok kind ∧ readPayload kind p = .ok v := by
  rw [read_record,show parts [("type",t),("value",p)] = [(.tag,t),(.payload,p)] from rfl,
    readParts_eq_ok_iff]
  constructor
  · rintro ⟨_,_,kind,⟨⟨⟩⟩ | ⟨⟨⟩,-⟩,hkind,hv⟩
    exact ⟨kind,hkind,hv⟩
  · rintro ⟨kind,hkind,hv⟩
    exact ⟨t,p,kind,.inl rfl,hkind,hv⟩

/-- Unless its tag is such an object, a pair is taken just if the object is that has the tag and the
payload under their names. -/
theorem read_pair_iff {t p : Json} (ht : ∀ kind : FilterKind, t ≠ .record [(kind.name,.null)]) :
    codec.read (.array [t,p]) = .ok v ↔ codec.read (.record [("type",t),("value",p)]) = .ok v := by
  rw [show codec.read (.array [t,p]) = readPair [t,p] from rfl,readPair_eq_ok_iff,
    read_members_eq_ok_iff]
  constructor
  · rintro ⟨kind,_,⟨⟩,hv⟩
    exact ⟨kind,readTag_eq_ok_iff.mpr rfl,hv⟩
  · rintro ⟨kind,hkind,hv⟩
    obtain rfl := (readTag_eq_ok_iff_or.mp hkind).resolve_right (ht kind)
    exact ⟨kind,p,rfl,hv⟩

/-- In an object a tag that is such an object goes for the name in it. -/
theorem read_object_tag_iff {p : Json} :
    codec.read (.record [("type",.record [(kind.name,.null)]),("value",p)]) = .ok v ↔
      codec.read (.record [("type",.string kind.name),("value",p)]) = .ok v := by
  rw [read_members_eq_ok_iff,read_members_eq_ok_iff,readTag_eq_ok_iff_or.mpr (.inr rfl),
    readTag_eq_ok_iff.mpr rfl]

end AttributeValue

namespace Codec

/-- Arrays are read for a record by the positions of its fields. -/
structure ReadsByPosition {ρ : Type} (c : Codec ρ) (names : List String) : Prop where
  /-- An array of up to as many items as there are fields is read for just that for which the object
  is that has the items under the names of the first fields. -/
  agrees : ∀ vs, vs.length ≤ names.length →
    ∀ r, c.read (.array vs) = .ok r ↔ c.read (.record (names.zip vs)) = .ok r
  /-- An array of more items is refused. -/
  surplus : ∀ vs, names.length < vs.length → ∀ r, c.read (.array vs) ≠ .ok r

/-- Documents that differ in the form of one record in them, wherever a codec looks for one: the record
is an array in the first and an object in the second. -/
inductive Reformed : {α : Type} → Codec α → Json → Json → Prop
  | record {αs ρ} (fs : Fields αs) {ofRow : Row αs → ρ} {toRow vs} (apart : fs.Apart)
      (fits : vs.length ≤ fs.names.length) :
    Reformed (fs.codec ofRow toRow) (.array vs) (.record (fs.names.zip vs))
  | pair {t p} (named : ∀ kind : FilterKind, t ≠ .record [(kind.name,.null)]) :
    Reformed AttributeValue.codec (.array [t,p]) (.record [("type",t),("value",p)])
  | element {αs ρ} {fs : Fields αs} {ofRow : Row αs → ρ} {toRow f j j'} (before after)
      (place : fs.toList[before.length]? = some f) (inner : Reformed f.2.codec j j') :
    Reformed (fs.codec ofRow toRow) (.array (before ++ j :: after)) (.array (before ++ j' :: after))
  | member {αs ρ} {fs : Fields αs} {ofRow : Row αs → ρ} {toRow f k j j' before after}
      (apart : fs.Apart) (mem : f ∈ fs.toList) (named : f.2.answersTo k = true)
      (inner : Reformed f.2.codec j j') :
    Reformed (fs.codec ofRow toRow) (.record (before ++ (k,j) :: after))
      (.record (before ++ (k,j') :: after))
  | item {α} {c : Codec α} {j j'} (before after) (inner : Reformed c j j') :
    Reformed c.list (.array (before ++ j :: after)) (.array (before ++ j' :: after))
  | present {α} {c : Codec α} {j j'} (inner : Reformed c j j') : Reformed c.option j j'
  | rangeOfPair {t j j' before after} (inner : Reformed ValueRange.codec j j') :
    Reformed AttributeValue.codec (.array [t,.array (before ++ j :: after)])
      (.array [t,.array (before ++ j' :: after)])
  | rangeOfValue {j j' before after pre post} (inner : Reformed ValueRange.codec j j') :
    Reformed AttributeValue.codec
      (.record (pre ++ ("value",.array (before ++ j :: after)) :: post))
      (.record (pre ++ ("value",.array (before ++ j' :: after)) :: post))
  | rangeOfAttribute {j j' before after pre post} (inner : Reformed ValueRange.codec j j') :
    Reformed Attribute.codec
      (.record (pre ++ ("value",.array (before ++ j :: after)) :: post))
      (.record (pre ++ ("value",.array (before ++ j' :: after)) :: post))

end Codec

theorem Fields.readsByPosition {αs : List Type} {ρ : Type} {fs : Fields αs} {ofRow : Row αs → ρ}
    {toRow : ρ → Row αs} (apart : fs.Apart) : (fs.codec ofRow toRow).ReadsByPosition fs.names where
  agrees vs h r := by
    refine map_eq_ok_iff.trans (Iff.trans (exists_congr fun row => and_congr_left fun _ => ?_)
      map_eq_ok_iff.symm)
    rw [readItems_eq_ok_iff apart h,readMembers_labelled_eq_ok_iff apart]
  surplus vs h r hr := by
    obtain ⟨row,hrow,-⟩ := map_eq_ok_iff.mp hr
    exact readItems_ne_ok h hrow

namespace Codec
namespace Reformed

variable {α : Type} {c : Codec α} {j j' : Json}

theorem containers (h : Reformed c j j') :
    ((∃ js, j = .array js) ∨ ∃ ms, j = .object ms) ∧
      ((∃ js, j' = .array js) ∨ ∃ ms, j' = .object ms) := by
  induction h with
  | record | pair => exact ⟨.inl ⟨_,rfl⟩,.inr ⟨_,rfl⟩⟩
  | element | item | rangeOfPair => exact ⟨.inl ⟨_,rfl⟩,.inl ⟨_,rfl⟩⟩
  | member | rangeOfValue | rangeOfAttribute => exact ⟨.inr ⟨_,rfl⟩,.inr ⟨_,rfl⟩⟩
  | present _ ih => exact ih

/-- Neither document stands for a text. -/
theorem not_string (h : Reformed c j j') :
    (∀ s, Codec.string.read j ≠ .ok s) ∧ ∀ s, Codec.string.read j' ≠ .ok s := by
  obtain ⟨⟨_,rfl⟩ | ⟨_,rfl⟩,⟨_,rfl⟩ | ⟨_,rfl⟩⟩ := h.containers <;> exact ⟨nofun,nofun⟩

theorem read_present_iff {ω : Option α} (h : Reformed c j j')
    (ih : ∀ a, c.read j = .ok a ↔ c.read j' = .ok a) :
    c.option.read j = .ok ω ↔ c.option.read j' = .ok ω := by
  have hsome : (c.read j).map some = .ok ω ↔ (c.read j').map some = .ok ω := by
    simp only [map_eq_ok_iff,ih]
  obtain ⟨⟨_,rfl⟩ | ⟨_,rfl⟩,⟨_,rfl⟩ | ⟨_,rfl⟩⟩ := h.containers <;> exact hsome

theorem sound_eq (h : Reformed c j j') : j.sound = j'.sound := by
  induction h with
  | record _ apart fits => exact (Json.sound_record_zip fits).symm
  | @pair t p _ =>
    have hlength : [t,p].length ≤ ["type","value"].length := Nat.le_refl 2
    exact (Json.sound_record_zip hlength).symm
  | element before after _ _ ih | item before after _ ih =>
    exact Json.sound_array_congr before after ih
  | member _ _ _ _ ih => exact Json.sound_record_congr ih
  | present _ ih => exact ih
  | @rangeOfPair t _ _ before after _ ih =>
    exact Json.sound_array_congr [t] [] (Json.sound_array_congr before after ih)
  | rangeOfValue _ ih | rangeOfAttribute _ ih =>
    exact Json.sound_record_congr (Json.sound_array_congr _ _ ih)

theorem readPayload_iff {kind : FilterKind} {v : AttributeValue} {before after : List Json}
    (h : Reformed ValueRange.codec j j')
    (ih : ∀ r, ValueRange.codec.read j = .ok r ↔ ValueRange.codec.read j' = .ok r) :
    AttributeValue.readPayload kind (.array (before ++ j :: after)) = .ok v ↔
      AttributeValue.readPayload kind (.array (before ++ j' :: after)) = .ok v :=
  AttributeValue.readPayload_congr ih h.not_string.1 h.not_string.2

/-- A range in another form does not change what an object is read for as a value. -/
theorem readParts_iff {read : Json → Except Misfit FilterKind} {v : AttributeValue}
    {before after : List Json} {pre post : List (String × Json)}
    (h : Reformed ValueRange.codec j j')
    (ih : ∀ r, ValueRange.codec.read j = .ok r ↔ ValueRange.codec.read j' = .ok r) :
    AttributeValue.readParts read
        (AttributeValue.parts (pre ++ ("value",.array (before ++ j :: after)) :: post)) = .ok v ↔
      AttributeValue.readParts read
        (AttributeValue.parts (pre ++ ("value",.array (before ++ j' :: after)) :: post)) = .ok v := by
  have hparts (j : Json) : AttributeValue.parts (pre ++ ("value",j) :: post) =
      AttributeValue.parts pre ++ (.payload,j) :: AttributeValue.parts post := by
    simp [AttributeValue.parts,AttributeValue.Part.ofName?]
  rw [hparts,hparts]
  constructor
  · exact AttributeValue.readParts_of_payload (Json.sound_array_congr before after h.sound_eq)
      fun kind v => (h.readPayload_iff ih).mp
  · exact AttributeValue.readParts_of_payload (Json.sound_array_congr before after h.sound_eq.symm)
      fun kind v => (h.readPayload_iff ih).mpr

/-- The same is read in either form. -/
theorem read_iff (h : Reformed c j j') : ∀ a, c.read j = .ok a ↔ c.read j' = .ok a := by
  induction h with
  | record _ apart fits => exact (Fields.readsByPosition apart).agrees _ fits
  | pair named => exact fun _ => AttributeValue.read_pair_iff named
  | element _ _ place _ ih =>
    exact fun r => map_eq_ok_iff.trans
      ((exists_congr fun _ => and_congr_left fun _ => Fields.readItems_congr place ih).trans
        map_eq_ok_iff.symm)
  | member apart mem named _ ih =>
    intro r
    refine map_eq_ok_iff.trans ((exists_congr fun row => and_congr_left fun _ => ?_).trans
      map_eq_ok_iff.symm)
    simp only [Fields.readMembers_labelled_eq_ok_iff apart]
    exact ⟨.of_member apart mem named fun a => (ih a).mp,
      .of_member apart mem named fun a => (ih a).mpr⟩
  | item _ _ _ ih => exact fun as => Codec.readItems_congr ih
  | present h ih => exact fun ω => h.read_present_iff ih
  | rangeOfPair h ih =>
    intro v
    have hpair (t p : Json) : AttributeValue.codec.read (.array [t,p]) =
        AttributeValue.readPair [t,p] := rfl
    simp only [hpair,AttributeValue.readPair_eq_ok_iff,List.cons.injEq,and_true]
    constructor
    · rintro ⟨kind,_,⟨rfl,rfl⟩,hv⟩
      exact ⟨kind,_,⟨rfl,rfl⟩,(h.readPayload_iff ih).mp hv⟩
    · rintro ⟨kind,_,⟨rfl,rfl⟩,hv⟩
      exact ⟨kind,_,⟨rfl,rfl⟩,(h.readPayload_iff ih).mpr hv⟩
  | rangeOfValue h ih =>
    intro v
    rw [AttributeValue.read_record,AttributeValue.read_record]
    exact h.readParts_iff ih
  | @rangeOfAttribute j j' before after pre post h ih =>
    intro a
    have hbesides (j : Json) : Json.besides "name" (pre ++ ("value",j) :: post) =
        Json.besides "name" pre ++ ("value",j) :: Json.besides "name" post := by
      simp [Json.besides]
    have hname (j : Json) : Json.valuesOf "name" (pre ++ ("value",j) :: post) =
        Json.valuesOf "name" pre ++ Json.valuesOf "name" post := by
      simp [Json.valuesOf]
    have hsound : (Json.array (before ++ j :: after)).sound =
        (Json.array (before ++ j' :: after)).sound :=
      Json.sound_array_congr before after h.sound_eq
    simp only [Attribute.read_record_eq_ok_iff,hbesides,hname,List.forall_mem_append,
      List.forall_mem_cons,hsound,h.readParts_iff ih]

end Reformed

end Codec

/-- Offers and tasks with their parts, filters and the settings are read alike by position and by
name, and so are values, except that in an array a tag must be a text where in an object it may be
an object too, which goes for the name in it. It is all one which records of a document are in which
form. -/
theorem records_read_by_position :
    Offer.codec.ReadsByPosition ["id","agent_id","hostname","resources","attributes"] ∧
    Resource.codec.ReadsByPosition ["name","scalar","disk"] ∧
    Disk.codec.ReadsByPosition ["persistence_id","principal","container_path","host_path"] ∧
    ValueRange.codec.ReadsByPosition ["begin","end"] ∧
    Task.codec.ReadsByPosition ["name","task_id","resources"] ∧
    Filter.codec.ReadsByPosition ["kind","values"] ∧
    AllocatorSettings.codec.ReadsByPosition ["filter_mode","default_strategy"] ∧
    Config.codec.ReadsByPosition ["allocator"] ∧
    (∀ t p, (∀ kind : FilterKind, t ≠ .record [(kind.name,.null)]) →
      ∀ v, AttributeValue.codec.read (.array [t,p]) = .ok v ↔
        AttributeValue.codec.read (.record [("type",t),("value",p)]) = .ok v) ∧
    (∀ vs, (∃ kind : FilterKind, ∃ p, vs = [.record [(kind.name,.null)],p]) ∨ vs.length ≠ 2 →
      ∀ v, AttributeValue.codec.read (.array vs) ≠ .ok v) ∧
    (∀ (kind : FilterKind) (p : Json) (v : AttributeValue),
      AttributeValue.codec.read
        (.record [("type",.record [(kind.name,.null)]),("value",p)]) = .ok v ↔
      AttributeValue.codec.read (.record [("type",.string kind.name),("value",p)]) = .ok v) ∧
    (∀ {α : Type} (c : Codec α) (j j' : Json), Relation.EqvGen c.Reformed j j' →
      ∀ a, c.read j = .ok a ↔ c.read j' = .ok a) ∧
    ∀ {α : Type} (c : Codec α) (text : String) (j : Json), Json.parse text = some j →
      ∀ a, c.readText text = .ok a ↔ c.read j = .ok a := by
  refine ⟨Fields.readsByPosition (by decide),Fields.readsByPosition (by decide),
    Fields.readsByPosition (by decide),Fields.readsByPosition (by decide),
    Fields.readsByPosition (by decide),Fields.readsByPosition (by decide),
    Fields.readsByPosition (by decide),Fields.readsByPosition (by decide),
    fun t p ht v => AttributeValue.read_pair_iff ht,fun vs hvs v hv => ?_,
    fun kind p v => AttributeValue.read_object_tag_iff,fun c j j' h => ?_,
    fun c text j h => Codec.readText_eq_ok_iff h⟩
  · obtain ⟨kind,p,rfl,-⟩ := AttributeValue.readPair_eq_ok_iff.mp hv
    obtain ⟨_,_,⟨⟩⟩ | hvs := hvs
    exact hvs rfl
  · induction h with
    | rel _ _ h => exact h.read_iff
    | refl => exact fun _ => Iff.rfl
    | symm _ _ _ ih => exact fun a => (ih a).symm
    | trans _ _ _ _ _ ih ih' => exact fun a => (ih a).trans (ih' a)

theorem records_read_by_position_disk :
    let text := "[\"o1\",\"a1\",\"h\",[[\"disk\",null,[\"v1\"]]]]"
    let offer (line : Json) : List Json := [.string "o1",.string "a1",.string "h",.array [line]]
    let line (disk : Json) : List Json := [.string "disk",.null,disk]
    let disk : Json := .record [("persistence_id",.string "v1")]
    let named : Json := .record [("name",.string "disk"),("scalar",.null),("disk",disk)]
    let o : Offer := ⟨"o1","a1","h",[.ofDisk { persistenceId := some "v1" }],[]⟩
    Json.parse text = some (.array (offer (.array (line (.array [.string "v1"]))))) ∧
      Relation.EqvGen Offer.codec.Reformed (.array (offer (.array (line (.array [.string "v1"])))))
        (.array (offer named)) ∧
      Offer.codec.read (.array (offer named)) = .ok o ∧ Offer.codec.readText text = .ok o ∧
      AttributeValue.codec.read (.array [.string "text",.string "x"]) = .ok (.text "x") ∧
      ∀ v, AttributeValue.codec.read (.array [.string "text"]) ≠ .ok v := by
  intro text offer line disk named o
  obtain ⟨hoffer,-,-,-,-,-,-,-,hpair,hrefused,-,hforms,htexts⟩ := records_read_by_position
  have hparse : Json.parse text =
      some (.array (offer (.array (line (.array [.string "v1"]))))) := by
    unfold text offer line
    rfl
  have hdisk : Disk.codec.Reformed (.array [.string "v1"]) disk :=
    .record Disk.fields (by decide) (by decide)
  have hline : Resource.codec.Reformed (.array (line (.array [.string "v1"]))) (.array (line disk)) :=
    .element [.string "disk",.null] [] rfl (.present hdisk)
  have hnamed : Resource.codec.Reformed (.array (line disk)) named :=
    .record Resource.fields (by decide) (by decide)
  have hlines {j j' : Json} (h : Resource.codec.Reformed j j') :
      Offer.codec.Reformed (.array (offer j)) (.array (offer j')) :=
    .element [.string "o1",.string "a1",.string "h"] [] rfl (.item [] [] h)
  have hsame : Relation.EqvGen Offer.codec.Reformed
      (.array (offer (.array (line (.array [.string "v1"]))))) (.array (offer named)) :=
    .trans _ _ _ (.rel _ _ (hlines hline)) (.rel _ _ (hlines hnamed))
  have hread : Offer.codec.read (.array (offer named)) = .ok o :=
    (hoffer.agrees _ (by decide) _).mpr rfl
  refine ⟨hparse,hsame,hread,(htexts _ _ _ hparse o).mpr ((hforms _ _ _ hsame o).mpr hread),?_,?_⟩
  · exact (hpair (.string "text") _ (fun _ => nofun) _).mpr rfl
  · exact hrefused _ (.inr (by decide))

/-- In an object a tag may be an object too, in an array it may not. -/
theorem object_tag_refused_by_position :
    let tag : Json := .record [("text",.null)]
    AttributeValue.codec.read (.record [("type",tag),("value",.string "x")]) = .ok (.text "x") ∧
      AttributeValue.codec.read (.array [tag,.string "x"]) = .error .shape := ⟨rfl,rfl⟩

end OfferAllocation
