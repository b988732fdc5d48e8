import OfferAllocation.Proofs.Attributes

/-! Round trips. What is written for a value and read again is that value, for every type of which
values are written, as long as no double is part of the value. -/
namespace OfferAllocation

namespace Codec

variable {α : Type} {c : Codec α} {a : α} {d d' : Nat}

/-- What is written for a value is a tree that stays the same, and from it the value is read. -/
structure Restores (c : Codec α) (d : Nat) (a : α) : Prop where
  written : (c.write a).Exact d
  reads : c.read (c.write a) = .ok a

theorem Restores.mono (h : c.Restores d a) (hd : d ≤ d') : c.Restores d' a :=
  ⟨h.written.mono hd,h.reads⟩

/-- The text written for a value is read, and as that value. -/
def RoundTrips (c : Codec α) (a : α) : Prop := c.readText (c.writeText a) = .ok a

theorem Restores.roundTrips (h : c.Restores d a) (hd : d ≤ Json.Stage.depthLimit) :
    c.RoundTrips a := by
  have hparse : Json.parse (c.writeText a) = some (c.write a) :=
    Json.parse_render (h.written.mono hd)
  rw [RoundTrips,readText_of_parse hparse,h.reads]
  rfl

theorem restores_string (s : String) : Codec.string.Restores d s := ⟨.string s,rfl⟩

theorem restores_word (n : UInt64) : Codec.word.Restores d n := by
  have hlt : n.toNat < Numeral.limit := n.toNat_lt_size
  have hshift (k : Nat) (hk : 64 ≤ k) : n.toNat >>> k = 0 :=
    Nat.shiftRight_eq_zero _ _ (Nat.lt_of_lt_of_le n.toNat_lt (Nat.pow_le_pow_right (by decide) hk))
  refine ⟨.natural (by rw [Json.inReach,hshift _ (by decide)]; rfl),?_⟩
  simp [word,hlt]

theorem restores_list {as : List α} (h : ∀ a ∈ as, c.Restores d a) :
    (list c).Restores (d+1) as := by
  refine ⟨.array fun j hj => ?_,?_⟩
  · obtain ⟨a,ha,rfl⟩ := List.mem_map.mp hj
    exact (h a ha).written
  · show readItems c.read (as.map c.write) = .ok as
    induction as with
    | nil => rfl
    | cons a as ih =>
      obtain ⟨ha,has⟩ := List.forall_mem_cons.mp h
      rw [List.map_cons,readItems,ha.reads,ih has]
      rfl

theorem restores_option {o : Option α} {e : Misfit} (hnull : c.read .null = .error e)
    (h : ∀ a ∈ o, c.Restores d a) : c.option.Restores d o := by
  cases o with
  | none => exact ⟨.null,rfl⟩
  | some a =>
    obtain ⟨hwritten,hreads⟩ := h a rfl
    -- A value is never written as null, since null is not read as one.
    have hpresent : c.write a ≠ .null := fun hj => by simp [hj,hnull] at hreads
    exact ⟨hwritten,(option_read hpresent).trans (by rw [hreads]; rfl)⟩

theorem restores_variant {table : List (String × α)} {name : α → String}
    (h : table.lookup (name a) = some a) : (variant table name).Restores d a :=
  ⟨.string _,by simp [variant,readVariant,variantNamed,h]⟩

end Codec

/-- A field of which nothing is written has the value of an absent field. -/
structure Field.Restores {α : Type} (f : Field α) (d : Nat) (a : α) : Prop where
  value : f.codec.Restores d a
  silence : f.silent a = true → f.absent = some a

namespace Field

variable {α : Type} {d : Nat} {a : α} {name : String} {c : Codec α}

theorem restores_required (h : c.Restores d a) : (required name c).Restores d a := ⟨h,nofun⟩

theorem restores_defaulted {value : α} (h : c.Restores d a) :
    (defaulted name c value).Restores d a :=
  ⟨h,nofun⟩

theorem Restores.orNamed {f : Field α} (h : f.Restores d a) (name : String) :
    (f.orNamed name).Restores d a :=
  ⟨h.value,h.silence⟩

theorem restores_optional {o : Option α} {e : Misfit} (hnull : c.read .null = .error e)
    (h : ∀ a ∈ o, c.Restores d a) : (optional name c).Restores d o :=
  ⟨Codec.restores_option hnull h,fun ho => by rw [Option.isNone_iff_eq_none.mp ho]; rfl⟩

end Field

namespace Fields

/-- Every field of a row is restored. -/
def Restores (d : Nat) : {αs : List Type} → Fields αs → Row αs → Prop
  | _,.nil,_ => True
  | _,.cons f fs,(a,row) => f.Restores d a ∧ fs.Restores d row

/-- The members that are written for a row. -/
def written : {αs : List Type} → Fields αs → Row αs → List (String × Json)
  | _,.nil,_ => []
  | _,.cons f fs,(a,row) =>
    if f.silent a then fs.written row else (f.name,f.codec.write a) :: fs.written row

variable {α ρ : Type} {αs : List Type} {f : Field α} {fs : Fields αs} {row : Row αs} {d : Nat}

theorem writeMembers_eq : fs.writeMembers row = Json.labelled (fs.written row) := by
  induction fs with
  | nil => rfl
  | cons f fs ih =>
    obtain ⟨a,row⟩ := row
    rw [writeMembers,written]
    split_ifs with hsilent
    · exact ih
    · rw [ih]
      rfl

theorem exists_name_of_mem_written {m : String × Json} (hm : m ∈ fs.written row) :
    ∃ f ∈ fs.toList, m.1 = f.2.name := by
  induction fs with
  | nil => cases hm
  | cons f fs ih =>
    obtain ⟨a,row⟩ := row
    have hrest (hm : m ∈ fs.written row) : ∃ g ∈ (cons f fs).toList, m.1 = g.2.name :=
      (ih hm).imp fun g hg => ⟨List.mem_cons_of_mem _ hg.1,hg.2⟩
    rw [written] at hm
    split_ifs at hm with hsilent
    · exact hrest hm
    · obtain rfl | hm := List.mem_cons.mp hm
      · exact ⟨_,List.mem_cons_self,rfl⟩
      · exact hrest hm

theorem exact_of_mem_written (h : fs.Restores d row) {m : String × Json}
    (hm : m ∈ fs.written row) : m.2.Exact d := by
  induction fs with
  | nil => cases hm
  | cons f fs ih =>
    obtain ⟨a,row⟩ := row
    rw [written] at hm
    split_ifs at hm with hsilent
    · exact ih h.2 hm
    · obtain rfl | hm := List.mem_cons.mp hm
      · exact h.1.value.written
      · exact ih h.2 hm

theorem holds_written (apart : fs.Apart) (h : fs.Restores d row) :
    fs.Holds (fs.written row) row := by
  induction fs with
  | nil => trivial
  | cons f fs ih =>
    obtain ⟨a,row⟩ := row
    obtain ⟨⟨hvalue,hsilence⟩,hrow⟩ := h
    have hrest : fs.Holds (fs.written row) row := ih apart.tail hrow
    have hothers (g) (hg : g ∈ fs.toList) : g.2.answersTo f.name = false :=
      apart.answersTo f.answersTo_name g hg
    -- Nothing that is written for the later fields is taken for this one.
    have hnone : f.given (fs.written row) = [] := by
      refine Field.given_eq_nil fun m hm => ?_
      obtain ⟨g,hg,hname⟩ := exists_name_of_mem_written hm
      rw [hname]
      exact apart.not_answersTo_name hg
    rw [written]
    split_ifs with hsilent
    · exact ⟨.absent hnone (hsilence hsilent),hrest⟩
    · refine ⟨.member ?_ hvalue.reads,hrest.of_given fun g hg => ?_⟩
      · rw [Field.given_cons_of_answersTo f.answersTo_name,hnone]
      · rw [Field.given_cons_of_not (hothers g hg)]

theorem restores_codec {ofRow : Row αs → ρ} {toRow : ρ → Row αs} {r : ρ} (apart : fs.Apart)
    (h : fs.Restores d (toRow r)) (hr : ofRow (toRow r) = r) :
    (fs.codec ofRow toRow).Restores (d+1) r := by
  have hread : fs.readMembers (fs.writeMembers (toRow r)) = .ok (toRow r) := by
    rw [writeMembers_eq,readMembers_labelled_eq_ok_iff apart]
    exact holds_written apart h
  refine ⟨?_,?_⟩
  · show Json.Exact (d+1) (.object (fs.writeMembers (toRow r)))
    rw [writeMembers_eq]
    refine .object (fun m hm => ?_) fun m hm => ?_
    · obtain ⟨named,-,rfl⟩ := List.mem_map.mp hm
      rfl
    · obtain ⟨named,hnamed,rfl⟩ := List.mem_map.mp hm
      exact exact_of_mem_written h hnamed
  · show ofRow <$> fs.readMembers (fs.writeMembers (toRow r)) = .ok r
    rw [hread]
    exact congrArg Except.ok hr

end Fields

/-! The types of which no double is ever a part. -/

theorem restores_optionalText {name : String} {d : Nat} (o : Option String) :
    (Field.optional name .string).Restores d o :=
  Field.restores_optional rfl fun s _ => Codec.restores_string s

theorem Disk.restores (d : Disk) : Disk.codec.Restores 1 d := by
  refine Fields.restores_codec (by decide) ?_ rfl
  exact ⟨restores_optionalText _,restores_optionalText _,restores_optionalText _,
    restores_optionalText _,trivial⟩

theorem ValueRange.restores (r : ValueRange) : ValueRange.codec.Restores 1 r := by
  refine Fields.restores_codec (by decide) ?_ rfl
  exact ⟨Field.restores_required (Codec.restores_word _),
    Field.restores_required (Codec.restores_word _),trivial⟩

theorem Filter.restores (f : Filter) : Filter.codec.Restores 2 f := by
  refine Fields.restores_codec (by decide) ?_ rfl
  have hvalues : (Codec.list .string).Restores 1 f.values :=
    Codec.restores_list fun s _ => Codec.restores_string s
  exact ⟨(Field.restores_required (Codec.restores_string _)).orNamed _,
    (Field.restores_defaulted hvalues).orNamed _,trivial⟩

theorem AllocatorSettings.restores (c : AllocatorSettings) :
    AllocatorSettings.codec.Restores 1 c := by
  refine Fields.restores_codec (by decide) ?_ rfl
  exact ⟨Field.restores_defaulted (Codec.restores_variant (by cases c.filterMode <;> rfl)),
    Field.restores_defaulted (Codec.restores_variant (by cases c.defaultStrategy <;> rfl)),trivial⟩

theorem Config.restores (c : Config) : Config.codec.Restores 2 c := by
  refine Fields.restores_codec (by decide) ?_ rfl
  exact ⟨Field.restores_defaulted c.allocator.restores,trivial⟩

/-! The types of which a double may be a part. -/

/-- The line is not one of an amount. -/
def Resource.NoDouble (r : Resource) : Prop := r.scalar = none

def AttributeValue.NoDouble (v : AttributeValue) : Prop := v.kind ≠ .scalar

def Attribute.NoDouble (a : Attribute) : Prop := a.value.NoDouble

def Offer.NoDouble (o : Offer) : Prop :=
  (∀ r ∈ o.resources, r.NoDouble) ∧ ∀ a ∈ o.attributes, a.NoDouble

def Task.NoDouble (t : Task) : Prop := ∀ r ∈ t.resources, r.NoDouble

theorem Resource.restores {r : Resource} (h : r.NoDouble) : Resource.codec.Restores 2 r := by
  refine Fields.restores_codec (by decide) ?_ rfl
  refine ⟨Field.restores_required (Codec.restores_string _),Field.restores_optional rfl ?_,
    Field.restores_optional rfl fun d _ => d.restores,trivial⟩
  rintro x hx
  simp [show r.scalar = none from h] at hx

namespace AttributeValue

variable {v : AttributeValue}

theorem payload_restored (h : v.NoDouble) :
    v.writePayload.Exact 2 ∧ readPayload v.kind v.writePayload = .ok v := by
  cases v with
  | scalar x => exact absurd rfl h
  | text s => exact ⟨.string s,rfl⟩
  | set items =>
    have hitems : (Codec.list .string).Restores 2 items :=
      Codec.restores_list fun s _ => Codec.restores_string s
    exact ⟨hitems.written,congrArg (AttributeValue.set <$> ·) hitems.reads⟩
  | ranges rs =>
    have hranges : (Codec.list ValueRange.codec).Restores 2 rs :=
      Codec.restores_list fun r _ => r.restores
    exact ⟨hranges.written,congrArg (AttributeValue.ranges <$> ·) hranges.reads⟩

theorem readTag_name (kind : FilterKind) : readTag (FilterKind.codec.write kind) = .ok kind :=
  readTag_eq_ok_iff.mpr rfl

/-- The two parts of a value, as they are written. -/
def writtenParts (v : AttributeValue) : List (Part × Json) :=
  [(.tag,FilterKind.codec.write v.kind),(.payload,v.writePayload)]

theorem readParts_writtenParts (h : v.NoDouble) {read : Json → Except Misfit FilterKind}
    (hread : read (FilterKind.codec.write v.kind) = .ok v.kind) :
    readParts read v.writtenParts = .ok v :=
  (LeadTo.tagFirst hread (payload_restored h).2).readParts_eq

theorem exact_members (h : v.NoDouble) {m : Label × Json} (hm : m ∈ v.members) :
    m.1.isSome = true ∧ m.2.Exact 2 := by
  obtain rfl | rfl : m = _ ∨ m = _ := by simpa [members] using hm
  · exact ⟨rfl,.string _⟩
  · exact ⟨rfl,(payload_restored h).1⟩

theorem restores (h : v.NoDouble) : AttributeValue.codec.Restores 3 v where
  written := .object (fun _ hm => (exact_members h hm).1) fun _ hm => (exact_members h hm).2
  reads := readParts_writtenParts h (readTag_name v.kind)

end AttributeValue

theorem Attribute.restores {a : Attribute} (h : a.NoDouble) : Attribute.codec.Restores 3 a := by
  have htag : readTag (FilterKind.codec.write a.value.kind) = .ok a.value.kind :=
    AttributeValue.readTag_name a.value.kind
  have hsound : a.value.writePayload.sound = true := (AttributeValue.payload_restored h).1.sound
  have hgather : ((some "name",.string a.name) :: a.value.members).foldlM gather {} =
      .ok ⟨some a.name,[("value",a.value.writePayload),
        ("type",FilterKind.codec.write a.value.kind)]⟩ := by
    simp [gather,AttributeValue.members,Codec.string,FilterKind.codec,Codec.variant,Json.sound,
      hsound,bind,Except.bind,pure,Except.pure]
  refine ⟨.object ?_ ?_,?_⟩
  · exact List.forall_mem_cons.mpr ⟨rfl,fun _ hm => (AttributeValue.exact_members h hm).1⟩
  · exact List.forall_mem_cons.mpr ⟨.string _,fun _ hm => (AttributeValue.exact_members h hm).2⟩
  · show (List.foldlM gather {} _).bind _ = _
    rw [hgather]
    exact congrArg (Attribute.mk a.name <$> ·) (AttributeValue.readParts_writtenParts h htag)

theorem Offer.restores {o : Offer} (h : o.NoDouble) : Offer.codec.Restores 5 o := by
  have hresources : (Codec.list Resource.codec).Restores 3 o.resources :=
    Codec.restores_list fun r hr => Resource.restores (h.1 r hr)
  have hattributes : (Codec.list Attribute.codec).Restores 4 o.attributes :=
    Codec.restores_list fun a ha => Attribute.restores (h.2 a ha)
  refine Fields.restores_codec (by decide) ?_ rfl
  exact ⟨Field.restores_required (Codec.restores_string _),
    Field.restores_defaulted (Codec.restores_string _),
    Field.restores_defaulted (Codec.restores_string _),
    Field.restores_defaulted (hresources.mono (by decide)),
    Field.restores_defaulted hattributes,trivial⟩

theorem Task.restores {t : Task} (h : t.NoDouble) : Task.codec.Restores 4 t := by
  have hresources : (Codec.list Resource.codec).Restores 3 t.resources :=
    Codec.restores_list fun r hr => Resource.restores (h r hr)
  refine Fields.restores_codec (by decide) ?_ rfl
  exact ⟨Field.restores_required (Codec.restores_string _),
    Field.restores_defaulted (Codec.restores_string _),
    Field.restores_defaulted hresources,trivial⟩

/-- Nothing is lost by writing and reading: all texts, whatever their characters, all machine words,
and all lists and optional parts, however they are nested, come back as they were. -/
theorem text_round_trip :
    (∀ o : Offer, o.NoDouble → Offer.codec.RoundTrips o) ∧
    (∀ os : List Offer, (∀ o ∈ os, o.NoDouble) → (Codec.list Offer.codec).RoundTrips os) ∧
    (∀ r : Resource, r.NoDouble → Resource.codec.RoundTrips r) ∧
    (∀ d : Disk, Disk.codec.RoundTrips d) ∧
    (∀ a : Attribute, a.NoDouble → Attribute.codec.RoundTrips a) ∧
    (∀ v : AttributeValue, v.NoDouble → AttributeValue.codec.RoundTrips v) ∧
    (∀ r : ValueRange, ValueRange.codec.RoundTrips r) ∧
    (∀ t : Task, t.NoDouble → Task.codec.RoundTrips t) ∧
    (∀ f : Filter, Filter.codec.RoundTrips f) ∧
    (∀ fs : List Filter, (Codec.list Filter.codec).RoundTrips fs) ∧
    (∀ c : AllocatorSettings, AllocatorSettings.codec.RoundTrips c) ∧
    ∀ c : Config, Config.codec.RoundTrips c := by
  refine ⟨fun o h => ?_,fun os h => ?_,fun r h => ?_,fun d => ?_,fun a h => ?_,fun v h => ?_,
    fun r => ?_,fun t h => ?_,fun f => ?_,fun fs => ?_,fun c => ?_,fun c => ?_⟩
  · exact (Offer.restores h).roundTrips (by decide)
  · exact (Codec.restores_list fun o ho => Offer.restores (h o ho)).roundTrips (by decide)
  · exact (Resource.restores h).roundTrips (by decide)
  · exact d.restores.roundTrips (by decide)
  · exact (Attribute.restores h).roundTrips (by decide)
  · exact (AttributeValue.restores h).roundTrips (by decide)
  · exact r.restores.roundTrips (by decide)
  · exact (Task.restores h).roundTrips (by decide)
  · exact f.restores.roundTrips (by decide)
  · exact (Codec.restores_list fun f _ => f.restores).roundTrips (by decide)
  · exact c.restores.roundTrips (by decide)
  · exact c.restores.roundTrips (by decide)

theorem text_round_trip_offer :
    let o : Offer := ⟨"\"o1\x00\\","","host\n",[.ofDisk ⟨some "é",none,none,some ""⟩],
      [.ranges "ports" [⟨0,18446744073709551615⟩],.set "zone" ["","🦀"],.text "rack" "a/b"]⟩
    o.NoDouble ∧ Offer.codec.RoundTrips o := by
  intro o
  have h : o.NoDouble := by
    simp [o,Offer.NoDouble,Resource.NoDouble,Attribute.NoDouble,AttributeValue.NoDouble,
      Resource.ofDisk,Attribute.ranges,Attribute.set,Attribute.text,AttributeValue.kind]
  exact ⟨h,text_round_trip.1 o h⟩

end OfferAllocation
