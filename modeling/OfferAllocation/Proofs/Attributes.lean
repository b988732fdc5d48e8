import OfferAllocation.Proofs.Records
import OfferAllocation.Proofs.Written

/-! Attributes in documents. A value is made up of a tag and a payload that may come in any order among
other members, and an attribute shares its object with its value. All that is asked of an object is
what its members of three names are; everything else in it may be as it likes, as long as it can be
set aside. -/
namespace OfferAllocation

namespace Json

/-- The values of the members with a name. -/
def valuesOf (key : String) (ms : List (String × Json)) : List Json :=
  (ms.filter fun m => m.1 == key).map Prod.snd

/-- The members but those with a name. -/
def besides (key : String) (ms : List (String × Json)) : List (String × Json) :=
  ms.filter fun m => m.1 != key

section Members

variable {key key' : String} {j : Json} {ms : List (String × Json)}

theorem valuesOf_cons : valuesOf key ((key',j) :: ms) =
    if key' = key then j :: valuesOf key ms else valuesOf key ms := by
  by_cases h : key' = key <;> simp [valuesOf,h]

theorem besides_cons : besides key ((key',j) :: ms) =
    if key' = key then besides key ms else (key',j) :: besides key ms := by
  by_cases h : key' = key <;> simp [besides,h]

theorem valuesOf_besides (h : key ≠ key') : valuesOf key (besides key' ms) = valuesOf key ms := by
  rw [valuesOf,valuesOf,besides,List.filter_filter]
  refine congrArg _ (List.filter_congr fun m _ => ?_)
  by_cases hm : m.1 = key <;> simp [hm,h]

theorem mem_valuesOf_iff : j ∈ valuesOf key ms ↔ (key,j) ∈ ms := by
  simp [valuesOf]

theorem mem_labelled_iff : (some key,j) ∈ labelled ms ↔ j ∈ valuesOf key ms := by
  simp [labelled,mem_valuesOf_iff]

theorem sound_record_iff : (record ms).sound = true ↔ ∀ m ∈ ms, m.2.sound = true := by
  rw [record,sound,soundMembers_iff,labelled,List.forall_mem_map]
  simp

/-- Where a name that is no text is refused, all names of what is taken up are texts. -/
theorem exists_labelled_of_foldlM {σ ε : Type} {step : σ → Label × Json → Except ε σ}
    {ls : List (Label × Json)} {s s' : σ} (refuses : ∀ s j s', step s (none,j) ≠ .ok s')
    (h : ls.foldlM step s = .ok s') : ∃ ms, ls = labelled ms := by
  refine exists_labelled_iff.mpr ?_
  rintro ⟨label,j⟩ hm rfl
  obtain ⟨pre,post,rfl⟩ := List.append_of_mem hm
  rw [List.foldlM_append] at h
  obtain ⟨s₁,-,h⟩ := bind_eq_ok_iff.mp h
  obtain ⟨s₂,hstep,-⟩ := bind_eq_ok_iff.mp h
  exact refuses s₁ j s₂ hstep

end Members
end Json

namespace AttributeValue

open Json

/-- What a payload looks like, for each kind of value. -/
inductive IsPayload : FilterKind → Json → AttributeValue → Prop
  | natural (n : Nat) : IsPayload .scalar (.natural n) (.scalar (nearestDouble n))
  | real (x : Float) : IsPayload .scalar (.real x) (.scalar x)
  | text (s : String) : IsPayload .text (.string s) (.text s)
  | set (items : List String) : IsPayload .set (.array (items.map .string)) (.set items)
  | ranges {js : List Json} {rs : List ValueRange}
      (read : List.Forall₂ (fun j r => ValueRange.codec.read j = .ok r) js rs) :
    IsPayload .ranges (.array js) (.ranges rs)

/-- How far some parts lead. A payload that comes before the tag must be fit to be set aside. -/
inductive LeadTo (read : Json → Except Misfit FilterKind) : List (Part × Json) → Progress → Prop
  | start : LeadTo read [] .start
  | tagged {t kind} (tag : read t = .ok kind) : LeadTo read [(.tag,t)] (.tagged kind)
  | setAside {j} (sound : j.sound = true) : LeadTo read [(.payload,j)] (.setAside j)
  | tagFirst {t j kind v} (tag : read t = .ok kind) (payload : readPayload kind j = .ok v) :
    LeadTo read [(.tag,t),(.payload,j)] (.complete v)
  | payloadFirst {t j kind v} (sound : j.sound = true) (tag : read t = .ok kind)
      (payload : readPayload kind j = .ok v) :
    LeadTo read [(.payload,j),(.tag,t)] (.complete v)

variable {read read' : Json → Except Misfit FilterKind} {ps : List (Part × Json)} {t j : Json}
  {kind : FilterKind} {v : AttributeValue} {ms : List (String × Json)}

theorem readPayload_eq_ok_iff : readPayload kind j = .ok v ↔ IsPayload kind j v := by
  constructor
  · intro h
    cases kind with
    | scalar =>
      obtain ⟨x,hx,rfl⟩ := map_eq_ok_iff.mp h
      obtain rfl | ⟨n,rfl,rfl⟩ := (Codec.reads_double.takes j x).mp hx
      · exact .real x
      · exact .natural n
    | text =>
      obtain ⟨s,hs,rfl⟩ := map_eq_ok_iff.mp h
      obtain rfl := (Codec.reads_string.takes j s).mp hs
      exact .text s
    | set =>
      obtain ⟨items,hitems,rfl⟩ := map_eq_ok_iff.mp h
      obtain ⟨js,rfl,hjs⟩ := ((Codec.reads_list _).takes j items).mp hitems
      have hstrings : js = items.map .string := by
        rw [← List.forall₂_eq_eq_eq,List.forall₂_map_right_iff]
        exact hjs.imp fun j s => (Codec.reads_string.takes j s).mp
      subst hstrings
      exact .set items
    | ranges =>
      obtain ⟨rs,hrs,rfl⟩ := map_eq_ok_iff.mp h
      obtain ⟨js,rfl,hjs⟩ := ((Codec.reads_list _).takes j rs).mp hrs
      exact .ranges hjs
  · rintro (n | x | s | items | hread)
    · rfl
    · rfl
    · rfl
    · refine map_eq_ok_iff.mpr ⟨items,((Codec.reads_list _).takes _ _).mpr ⟨_,rfl,?_⟩,rfl⟩
      exact List.forall₂_map_left_iff.mpr (List.forall₂_same.mpr fun _ _ => rfl)
    · exact map_eq_ok_iff.mpr ⟨_,((Codec.reads_list _).takes _ _).mpr ⟨_,rfl,hread⟩,rfl⟩

theorem LeadTo.unique {s s' : Progress} (h : LeadTo read ps s) (h' : LeadTo read ps s') : s = s' := by
  cases h <;> cases h' <;> simp_all

/-- One part further. -/
theorem take_eq_ok_iff {s s' : Progress} {p : Part × Json} (h : LeadTo read ps s) :
    s.take read p = .ok s' ↔ LeadTo read (ps ++ [p]) s' := by
  obtain ⟨p,j⟩ := p
  cases h with
  | start =>
    cases p with
    | tag =>
      refine map_eq_ok_iff.trans ⟨?_,?_⟩
      · rintro ⟨kind,hkind,rfl⟩
        exact .tagged hkind
      · intro h'
        cases h' with
        | tagged hkind => exact ⟨_,hkind,rfl⟩
    | payload =>
      by_cases hj : j.sound = true
      · rw [Progress.take,if_pos hj]
        constructor
        · rintro ⟨⟩
          exact .setAside hj
        · rintro ⟨⟩
          rfl
      · rw [Progress.take,if_neg hj]
        refine iff_of_false nofun fun h' => ?_
        cases h' with
        | setAside hsound => exact hj hsound
  | tagged hkind =>
    cases p with
    | tag => exact iff_of_false nofun nofun
    | payload =>
      refine map_eq_ok_iff.trans ⟨?_,?_⟩
      · rintro ⟨v,hv,rfl⟩
        exact .tagFirst hkind hv
      · intro h'
        cases h' with
        | tagFirst hkind' hv =>
          obtain rfl := Except.ok.inj (hkind.symm.trans hkind')
          exact ⟨_,hv,rfl⟩
  | setAside hj =>
    cases p with
    | tag =>
      refine bind_eq_ok_iff.trans ⟨?_,?_⟩
      · rintro ⟨kind,hkind,h⟩
        obtain ⟨v,hv,rfl⟩ := map_eq_ok_iff.mp h
        exact .payloadFirst hj hkind hv
      · intro h'
        cases h' with
        | payloadFirst _ hkind hv => exact ⟨_,hkind,map_eq_ok_iff.mpr ⟨_,hv,rfl⟩⟩
    | payload => exact iff_of_false nofun nofun
  | tagFirst => cases p <;> exact iff_of_false nofun nofun
  | payloadFirst => cases p <;> exact iff_of_false nofun nofun

theorem LeadTo.of_concat {s : Progress} {p : Part × Json} (h : LeadTo read (ps ++ [p]) s) :
    ∃ s, LeadTo read ps s := by
  generalize hps : ps ++ [p] = qs at h
  have hinit : ps = qs.dropLast := by rw [← hps,List.dropLast_concat]
  subst hinit
  cases h with
  | start | tagged | setAside => exact ⟨_,.start⟩
  | tagFirst tag => exact ⟨_,.tagged tag⟩
  | payloadFirst sound => exact ⟨_,.setAside sound⟩

theorem progress_pictures (read : Json → Except Misfit FilterKind) :
    Pictures (Progress.take read) (LeadTo read)
      fun ps p e => ∃ s, LeadTo read ps s ∧ s.take read p = .error e where
  unique h h' := h.unique h'
  earlier h := h.of_concat
  ok hs _ _ := take_eq_ok_iff hs
  error hs _ _ := ⟨fun h => ⟨_,hs,h⟩,fun ⟨_,hs',h⟩ => hs.unique hs' ▸ h⟩

theorem foldlM_take_eq_ok_iff {s : Progress} :
    ps.foldlM (Progress.take read) .start = .ok s ↔ LeadTo read ps s :=
  (progress_pictures read).foldlM_eq_ok_iff .start

theorem LeadTo.readParts_eq {s : Progress} (h : LeadTo read ps s) : readParts read ps = s.finish := by
  rw [readParts,foldlM_take_eq_ok_iff.mpr h]
  rfl

/-- A value has a tag and a payload and nothing more; a payload that comes before the tag must be fit to
be set aside. -/
theorem readParts_eq_ok_iff : readParts read ps = .ok v ↔ ∃ t j kind,
    (ps = [(.tag,t),(.payload,j)] ∨ ps = [(.payload,j),(.tag,t)] ∧ j.sound = true) ∧
      read t = .ok kind ∧ readPayload kind j = .ok v := by
  have hfinish {s : Progress} : s.finish = .ok v ↔ s = .complete v := by
    cases s <;> simp [Progress.finish]
  refine bind_eq_ok_iff.trans ?_
  simp only [foldlM_take_eq_ok_iff,hfinish,exists_eq_right]
  constructor
  · rintro (_ | _ | _ | ⟨htag,hpayload⟩ | ⟨hsound,htag,hpayload⟩)
    · exact ⟨_,_,_,.inl rfl,htag,hpayload⟩
    · exact ⟨_,_,_,.inr ⟨rfl,hsound⟩,htag,hpayload⟩
  · rintro ⟨t,j,kind,rfl | ⟨rfl,hsound⟩,htag,hpayload⟩
    · exact .tagFirst htag hpayload
    · exact .payloadFirst hsound htag hpayload

/-! The members of an object that are parts. -/

theorem parts_cons {key : String} : parts ((key,j) :: ms) =
    if key = "type" then (.tag,j) :: parts ms
    else if key = "value" then (.payload,j) :: parts ms
    else parts ms := by
  rw [parts,List.filterMap_cons,Part.ofName?]
  split_ifs <;> rfl

theorem valuesOf_name (p : Part) (ms : List (String × Json)) :
    valuesOf p.name ms = ((parts ms).filter fun q => q.1 = p).map Prod.snd := by
  induction ms with
  | nil => rfl
  | cons m ms ih =>
    obtain ⟨key,j⟩ := m
    rw [valuesOf_cons,parts_cons,ih]
    by_cases htype : key = "type"
    · cases p <;> simp [htype,Part.name]
    · by_cases hvalue : key = "value"
      · cases p <;> simp [hvalue,Part.name]
      · cases p <;> simp [htype,hvalue,Part.name]

/-- One tag and one payload are parts in one order or the other. -/
theorem parts_eq_iff :
    parts ms = [(.tag,t),(.payload,j)] ∨ parts ms = [(.payload,j),(.tag,t)] ↔
      valuesOf "type" ms = [t] ∧ valuesOf "value" ms = [j] := by
  rw [show "type" = Part.tag.name from rfl,show "value" = Part.payload.name from rfl,valuesOf_name,
    valuesOf_name]
  generalize parts ms = ps
  constructor
  · rintro (rfl | rfl) <;> simp
  · rintro ⟨htag,hpayload⟩
    have hend {ps : List (Part × Json)} (h : ps.filter (fun q => q.1 = .tag) = [])
        (h' : ps.filter (fun q => q.1 = .payload) = []) : ps = [] := by
      cases ps with
      | nil => rfl
      | cons q ps => cases hq : q.1 <;> simp [hq] at h h'
    match ps with
    | [] => cases htag
    | [(.tag,_)] => cases hpayload
    | [(.payload,_)] => cases htag
    | (.tag,_) :: (.tag,_) :: _ => simp at htag
    | (.payload,_) :: (.payload,_) :: _ => simp at hpayload
    | (.tag,_) :: (.payload,_) :: ps =>
      simp only [List.filter_cons,reduceCtorEq,decide_true,decide_false,Bool.false_eq_true,if_true,
        if_false,List.map_cons,List.cons.injEq,List.map_eq_nil_iff] at htag hpayload
      obtain ⟨rfl,htag⟩ := htag
      obtain ⟨rfl,hpayload⟩ := hpayload
      exact .inl (by rw [hend htag hpayload])
    | (.payload,_) :: (.tag,_) :: ps =>
      simp only [List.filter_cons,reduceCtorEq,decide_true,decide_false,Bool.false_eq_true,if_true,
        if_false,List.map_cons,List.cons.injEq,List.map_eq_nil_iff] at htag hpayload
      obtain ⟨rfl,htag⟩ := htag
      obtain ⟨rfl,hpayload⟩ := hpayload
      exact .inr (by rw [hend htag hpayload])

theorem foldlM_member (s : Progress) :
    (labelled ms).foldlM (Progress.member read) s = (parts ms).foldlM (Progress.take read) s := by
  induction ms generalizing s with
  | nil => rfl
  | cons m ms ih =>
    obtain ⟨key,j⟩ := m
    rw [labelled,List.map_cons,List.foldlM_cons,Progress.member,parts,List.filterMap_cons]
    cases hkey : Part.ofName? key with
    | none =>
      simp only [hkey]
      exact ih s
    | some p =>
      simp only [hkey]
      exact congrArg (s.take read (p,j)).bind (funext ih)

theorem read_record (ms : List (String × Json)) :
    codec.read (.record ms) = readParts readTag (parts ms) :=
  congrArg (fun s => s.bind Progress.finish) (foldlM_member .start)

/-- Only from an object whose names are texts is a value read. -/
theorem exists_labelled_of_read {ls : List (Label × Json)} (h : codec.read (.object ls) = .ok v) :
    ∃ ms, ls = labelled ms := by
  obtain ⟨s,hs,-⟩ := bind_eq_ok_iff.mp h
  exact exists_labelled_of_foldlM (fun _ _ _ h => by cases h) hs

theorem readTag_eq_ok_iff {s : String} : readTag (.string s) = .ok kind ↔ s = kind.name :=
  FilterKind.variantNamed_table_iff

/-- Where tags are texts and payloads can be set aside, an object is taken for a value just if it has
one tag, which is the name of a kind, and one payload, which is one of that kind. -/
theorem read_record_eq_ok_iff (htags : ∀ t ∈ valuesOf "type" ms, ∃ s, t = .string s)
    (hpayloads : ∀ j ∈ valuesOf "value" ms, j.sound = true) :
    codec.read (.record ms) = .ok v ↔ ∃ kind j, valuesOf "type" ms = [.string kind.name] ∧
      valuesOf "value" ms = [j] ∧ IsPayload kind j v := by
  simp only [read_record,readParts_eq_ok_iff,readPayload_eq_ok_iff]
  constructor
  · rintro ⟨t,j,kind,hparts,htag,hpayload⟩
    obtain ⟨htype,hvalue⟩ := parts_eq_iff.mp (hparts.imp_right And.left)
    obtain ⟨s,rfl⟩ := htags t (by simp [htype])
    obtain rfl := readTag_eq_ok_iff.mp htag
    exact ⟨kind,j,htype,hvalue,hpayload⟩
  · rintro ⟨kind,j,htype,hvalue,hpayload⟩
    have hj : j.sound = true := hpayloads j (by simp [hvalue])
    have hparts := parts_eq_iff.mpr ⟨htype,hvalue⟩
    exact ⟨_,j,kind,hparts.imp_right (⟨·,hj⟩),readTag_eq_ok_iff.mpr rfl,hpayload⟩

theorem read_object_eq_ok_iff {ls : List (Label × Json)}
    (htags : ∀ t, (some "type",t) ∈ ls → ∃ s, t = .string s)
    (hpayloads : ∀ j, (some "value",j) ∈ ls → j.sound = true) :
    codec.read (.object ls) = .ok v ↔ ∃ ms kind j, ls = labelled ms ∧
      valuesOf "type" ms = [.string kind.name] ∧ valuesOf "value" ms = [j] ∧ IsPayload kind j v := by
  have hrecord {ms} (hms : ls = labelled ms) :
      codec.read (.record ms) = .ok v ↔ ∃ kind j, valuesOf "type" ms = [.string kind.name] ∧
        valuesOf "value" ms = [j] ∧ IsPayload kind j v :=
    read_record_eq_ok_iff (fun t ht => htags t (hms ▸ mem_labelled_iff.mpr ht))
      fun j hj => hpayloads j (hms ▸ mem_labelled_iff.mpr hj)
  constructor
  · intro h
    obtain ⟨ms,rfl⟩ := exists_labelled_of_read h
    obtain ⟨kind,j,hvalue⟩ := (hrecord rfl).mp h
    exact ⟨ms,kind,j,rfl,hvalue⟩
  · rintro ⟨ms,kind,j,rfl,hvalue⟩
    exact (hrecord rfl).mpr ⟨kind,j,hvalue⟩

/-- Where there is no tag, and at most one payload, it is the tag that is missing. -/
theorem readParts_of_no_tag (htype : valuesOf "type" ms = [])
    (hvalue : (valuesOf "value" ms).length ≤ 1)
    (hsound : ∀ j ∈ valuesOf "value" ms, j.sound = true) :
    readParts read (parts ms) = .error (.missingField "type") := by
  rw [show "type" = Part.tag.name from rfl,valuesOf_name] at htype
  rw [show "value" = Part.payload.name from rfl,valuesOf_name] at hvalue hsound
  generalize parts ms = ps at htype hvalue hsound
  match ps with
  | [] => rfl
  | [(.payload,j)] => exact (LeadTo.setAside (hsound j (by simp))).readParts_eq
  | (.tag,_) :: _ => simp at htype
  | (.payload,_) :: (.tag,_) :: _ => simp at htype
  | (.payload,_) :: (.payload,_) :: _ => simp at hvalue

/-- Where there is no payload, and the tag is one of those that are known, it is the payload that is
missing. -/
theorem readParts_of_no_payload (htype : valuesOf "type" ms = [t])
    (hvalue : valuesOf "value" ms = []) (hread : read t = .ok kind) :
    readParts read (parts ms) = .error (.missingField "value") := by
  rw [show "type" = Part.tag.name from rfl,valuesOf_name] at htype
  rw [show "value" = Part.payload.name from rfl,valuesOf_name] at hvalue
  generalize parts ms = ps at htype hvalue
  match ps with
  | [] => cases htype
  | [(.tag,_)] =>
    obtain rfl : _ = t := by simpa using htype
    exact (LeadTo.tagged hread).readParts_eq
  | (.payload,_) :: _ => simp at hvalue
  | (.tag,_) :: (.payload,_) :: _ => simp at hvalue
  | (.tag,_) :: (.tag,_) :: _ => simp at htype

end AttributeValue

namespace Attribute

open Json

variable {ms : List (String × Json)} {g g' : Gathered} {a : Attribute}

/-- Of an object the name is gathered, if it is a text and the only one, and all else is set aside, if
nothing in it is void. -/
theorem gather_eq_ok_iff : (labelled ms).foldlM gather g = .ok g' ↔
    (∀ m ∈ besides "name" ms, m.2.sound = true) ∧
      (valuesOf "name" ms = [] ∧ g'.name = g.name ∨
        g.name = none ∧ ∃ s, valuesOf "name" ms = [.string s] ∧ g'.name = some s) ∧
      g'.others = (besides "name" ms).reverse ++ g.others := by
  induction ms generalizing g with
  | nil =>
    obtain ⟨name,others⟩ := g
    obtain ⟨name',others'⟩ := g'
    show Except.ok _ = Except.ok _ ↔ _
    simp [valuesOf,besides,@eq_comm _ name',@eq_comm _ others']
  | cons m ms ih =>
    obtain ⟨key,j⟩ := m
    have hfold : (labelled ((key,j) :: ms)).foldlM gather g =
        (gather g (some key,j)).bind fun g => (labelled ms).foldlM gather g := rfl
    rw [hfold,valuesOf_cons,besides_cons]
    by_cases hkey : key = "name"
    · subst hkey
      cases hname : g.name with
      | some s => simp [gather,hname,Except.bind]
      | none =>
        cases j with
        | string s =>
          have hgather : gather g (some "name",.string s) = .ok { g with name := some s } := by
            simp [gather,hname,Codec.string,bind,Except.bind,pure,Except.pure]
          rw [hgather]
          refine ih.trans ?_
          simp
        | _ => simp [gather,hname,Codec.string,bind,Except.bind]
    · cases hj : j.sound with
      | false => simp [gather,hkey,hj,Except.bind]
      | true =>
        have hgather : gather g (some key,j) = .ok { g with others := (key,j) :: g.others } := by
          simp [gather,hkey,hj]
        rw [hgather]
        refine ih.trans ?_
        simp [hkey,hj]

/-- What is read once all members have been gathered. -/
def ofGathered (g : Gathered) : Except Misfit Attribute :=
  match g.name with
  | none => .error (.missingField "name")
  | some name =>
    (AttributeValue.readParts readTag (AttributeValue.parts g.others.reverse)).map fun v => ⟨name,v⟩

theorem read_record (ms : List (String × Json)) :
    codec.read (.record ms) = ((labelled ms).foldlM gather {}).bind ofGathered := by
  refine congrArg (((labelled ms).foldlM gather {}).bind ·) (funext fun g => ?_)
  rw [ofGathered]
  cases g.name <;> rfl

theorem read_of_no_name (hsound : ∀ m ∈ besides "name" ms, m.2.sound = true)
    (hname : valuesOf "name" ms = []) :
    codec.read (.record ms) = .error (.missingField "name") := by
  have hgather : (labelled ms).foldlM gather {} = .ok ⟨none,(besides "name" ms).reverse⟩ :=
    gather_eq_ok_iff.mpr ⟨hsound,.inl ⟨hname,rfl⟩,(List.append_nil _).symm⟩
  rw [read_record,hgather]
  rfl

/-- With its name an attribute is read as the value of its other members is. -/
theorem read_of_name (hsound : ∀ m ∈ besides "name" ms, m.2.sound = true) {s : String}
    (hname : valuesOf "name" ms = [.string s]) :
    codec.read (.record ms) =
      (AttributeValue.readParts readTag (AttributeValue.parts (besides "name" ms))).map
        fun v => ⟨s,v⟩ := by
  have hgather : (labelled ms).foldlM gather {} = .ok ⟨some s,(besides "name" ms).reverse⟩ :=
    gather_eq_ok_iff.mpr ⟨hsound,.inr ⟨rfl,s,hname,rfl⟩,(List.append_nil _).symm⟩
  rw [read_record,hgather]
  simp [Except.bind,ofGathered]

/-- An attribute has one name, which is a text, and besides it the parts of its value. -/
theorem read_record_eq_ok_iff : codec.read (.record ms) = .ok a ↔
    (∀ m ∈ besides "name" ms, m.2.sound = true) ∧ valuesOf "name" ms = [.string a.name] ∧
      AttributeValue.readParts readTag (AttributeValue.parts (besides "name" ms)) =
        .ok a.value := by
  constructor
  · intro h
    have hfold := h
    rw [read_record] at hfold
    obtain ⟨g,hgather,hg⟩ := bind_eq_ok_iff.mp hfold
    obtain ⟨hsound,⟨-,hnone⟩ | ⟨-,s,hname,-⟩,-⟩ := gather_eq_ok_iff.mp hgather
    · simp [ofGathered,hnone] at hg
    · rw [read_of_name hsound hname] at h
      obtain ⟨v,hv,rfl⟩ := map_eq_ok_iff.mp h
      exact ⟨hsound,hname,hv⟩
  · rintro ⟨hsound,hname,hvalue⟩
    rw [read_of_name hsound hname,hvalue]
    rfl

/-- A tag that is a text is read alike, whether it was set aside or not. -/
theorem readParts_iff {v : AttributeValue} (htags : ∀ t ∈ valuesOf "type" ms, ∃ s, t = .string s) :
    AttributeValue.readParts readTag (AttributeValue.parts ms) = .ok v ↔
      AttributeValue.readParts AttributeValue.readTag (AttributeValue.parts ms) = .ok v := by
  simp only [AttributeValue.readParts_eq_ok_iff]
  refine exists₃_congr fun t j kind => and_congr_right fun hparts => ?_
  have htype := (AttributeValue.parts_eq_iff.mp (hparts.imp_right And.left)).1
  obtain ⟨s,rfl⟩ := htags t (by simp [htype])
  exact Iff.rfl

/-- Only from an object whose names are texts is an attribute read. -/
theorem exists_labelled_of_read {ls : List (Label × Json)} (h : codec.read (.object ls) = .ok a) :
    ∃ ms, ls = labelled ms := by
  obtain ⟨g,hg,-⟩ := bind_eq_ok_iff.mp h
  exact exists_labelled_of_foldlM (fun _ _ _ h => by cases h) hg

theorem read_object_eq_ok_iff {ls : List (Label × Json)}
    (htags : ∀ t, (some "type",t) ∈ ls → ∃ s, t = .string s) :
    codec.read (.object ls) = .ok a ↔ ∃ ms, ls = labelled ms ∧
      (∀ m ∈ besides "name" ms, m.2.sound = true) ∧ valuesOf "name" ms = [.string a.name] ∧
        AttributeValue.codec.read (.record (besides "name" ms)) = .ok a.value := by
  have hrest {ms} (hms : ls = labelled ms) {v : AttributeValue} :
      AttributeValue.readParts readTag (AttributeValue.parts (besides "name" ms)) = .ok v ↔
        AttributeValue.codec.read (.record (besides "name" ms)) = .ok v := by
    rw [AttributeValue.read_record]
    refine readParts_iff fun t ht => htags t (hms ▸ mem_labelled_iff.mpr ?_)
    rwa [valuesOf_besides (by decide)] at ht
  constructor
  · intro h
    obtain ⟨ms,rfl⟩ := exists_labelled_of_read h
    obtain ⟨hsound,hname,hvalue⟩ := read_record_eq_ok_iff.mp h
    exact ⟨ms,rfl,hsound,hname,(hrest rfl).mp hvalue⟩
  · rintro ⟨ms,rfl,hsound,hname,hvalue⟩
    exact read_record_eq_ok_iff.mpr ⟨hsound,hname,(hrest rfl).mpr hvalue⟩

end Attribute

namespace Json

/-- The tags of an object are texts, and nothing in it is void. -/
structure Plain (ms : List (String × Json)) : Prop where
  tags : ∀ t ∈ valuesOf "type" ms, ∃ s, t = .string s
  sound : ∀ m ∈ ms, m.2.sound = true

namespace Plain

variable {ms : List (String × Json)} (h : Plain ms)

include h

theorem besides (key : String) : Plain (besides key ms) where
  tags t ht := h.tags t (mem_valuesOf_iff.mpr (List.mem_of_mem_filter (mem_valuesOf_iff.mp ht)))
  sound m hm := h.sound m (List.mem_of_mem_filter hm)

theorem payloads : ∀ j ∈ valuesOf "value" ms, j.sound = true :=
  fun _ hj => h.sound _ (mem_valuesOf_iff.mp hj)

theorem missing_name (hname : valuesOf "name" ms = []) :
    Attribute.codec.read (.record ms) = .error (.missingField "name") :=
  Attribute.read_of_no_name (h.besides "name").sound hname

/-- Without a tag neither a value is read nor, if there is a name, an attribute. -/
theorem missing_type (htype : valuesOf "type" ms = []) (hvalue : (valuesOf "value" ms).length ≤ 1) :
    AttributeValue.codec.read (.record ms) = .error (.missingField "type") ∧
      ∀ s, valuesOf "name" ms = [.string s] →
        Attribute.codec.read (.record ms) = .error (.missingField "type") := by
  refine ⟨?_,fun s hname => ?_⟩
  · rw [AttributeValue.read_record,AttributeValue.readParts_of_no_tag htype hvalue h.payloads]
  · rw [← valuesOf_besides (show "type" ≠ "name" by decide)] at htype
    rw [← valuesOf_besides (show "value" ≠ "name" by decide)] at hvalue
    rw [Attribute.read_of_name (h.besides "name").sound hname,
      AttributeValue.readParts_of_no_tag htype hvalue (h.besides "name").payloads]
    rfl

theorem missing_value {kind : FilterKind} (htype : valuesOf "type" ms = [.string kind.name])
    (hvalue : valuesOf "value" ms = []) :
    AttributeValue.codec.read (.record ms) = .error (.missingField "value") ∧
      ∀ s, valuesOf "name" ms = [.string s] →
        Attribute.codec.read (.record ms) = .error (.missingField "value") := by
  have htag : AttributeValue.readTag (.string kind.name) = .ok kind :=
    AttributeValue.readTag_eq_ok_iff.mpr rfl
  have htag' : Attribute.readTag (.string kind.name) = .ok kind := htag
  refine ⟨?_,fun s hname => ?_⟩
  · rw [AttributeValue.read_record,AttributeValue.readParts_of_no_payload htype hvalue htag]
  · rw [← valuesOf_besides (show "type" ≠ "name" by decide)] at htype
    rw [← valuesOf_besides (show "value" ≠ "name" by decide)] at hvalue
    rw [Attribute.read_of_name (h.besides "name").sound hname,
      AttributeValue.readParts_of_no_payload htype hvalue htag']
    rfl

end Plain
end Json

open Json in
/-- An attribute is read from an object just if the names of all members are texts, there is one `name`,
which is a text, nothing is void in the other members, and a value is read from these. A value is read
from an object just if the names of all members are texts, and there is one tag, which is the name of a
kind, and one payload, which is one of that kind. Where one of the three is missing, `name` is reported
before the tag and the tag before the payload. -/
theorem attributes_read_flat :
    (∀ ls, (∀ t, (some "type",t) ∈ ls → ∃ s, t = .string s) →
      ∀ a : Attribute, Attribute.codec.read (.object ls) = .ok a ↔ ∃ ms, ls = labelled ms ∧
        (∀ m ∈ besides "name" ms, m.2.sound = true) ∧ valuesOf "name" ms = [.string a.name] ∧
          AttributeValue.codec.read (.record (besides "name" ms)) = .ok a.value) ∧
    (∀ ls, (∀ t, (some "type",t) ∈ ls → ∃ s, t = .string s) →
      (∀ j, (some "value",j) ∈ ls → j.sound = true) →
      ∀ v, AttributeValue.codec.read (.object ls) = .ok v ↔ ∃ ms kind j, ls = labelled ms ∧
        valuesOf "type" ms = [.string kind.name] ∧ valuesOf "value" ms = [j] ∧
          AttributeValue.IsPayload kind j v) ∧
    (∀ ms, Plain ms →
      (valuesOf "name" ms = [] →
        Attribute.codec.read (.record ms) = .error (.missingField "name")) ∧
      (valuesOf "type" ms = [] → (valuesOf "value" ms).length ≤ 1 →
        AttributeValue.codec.read (.record ms) = .error (.missingField "type") ∧
        ∀ s, valuesOf "name" ms = [.string s] →
          Attribute.codec.read (.record ms) = .error (.missingField "type")) ∧
      ∀ kind : FilterKind, valuesOf "type" ms = [.string kind.name] → valuesOf "value" ms = [] →
        AttributeValue.codec.read (.record ms) = .error (.missingField "value") ∧
        ∀ s, valuesOf "name" ms = [.string s] →
          Attribute.codec.read (.record ms) = .error (.missingField "value")) ∧
    ∀ text ls, Json.parse text = some (.object ls) →
      Attribute.codec.readText text = (Attribute.codec.read (.object ls)).mapError .misfit ∧
      AttributeValue.codec.readText text =
        (AttributeValue.codec.read (.object ls)).mapError .misfit := by
  refine ⟨fun ls htags a => Attribute.read_object_eq_ok_iff htags,
    fun ls htags hpayloads v => AttributeValue.read_object_eq_ok_iff htags hpayloads,
    fun ms h => ⟨h.missing_name,h.missing_type,fun kind => h.missing_value⟩,
    fun text ls hparse => ?_⟩
  exact ⟨Codec.readText_of_parse hparse,Codec.readText_of_parse hparse⟩

open Json in
theorem attributes_read_flat_zone :
    let text :=
      "\x7b\"value\":[\"a\",\"b\"],\"name\":\"zone\",\"since\":\x7b\"type\":null\x7d,\"type\":\"set\"\x7d"
    let zone : List Json := [.string "a",.string "b"]
    let ms : List (String × Json) := [("value",.array zone),("name",.string "zone"),
      ("since",.record [("type",.null)]),("type",.string "set")]
    let untyped := ms.take 3
    let bare := ms.drop 1
    Plain ms ∧ AttributeValue.codec.read (.record (besides "name" ms)) = .ok (.set ["a","b"]) ∧
      Attribute.codec.read (.record ms) = .ok ⟨"zone",.set ["a","b"]⟩ ∧ Plain untyped ∧
      Attribute.codec.read (.record untyped) = .error (.missingField "type") ∧ Plain bare ∧
      Attribute.codec.read (.record bare) = .error (.missingField "value") ∧
      Attribute.codec.read (.record []) = .error (.missingField "name") ∧
      Json.parse text = some (.record ms) ∧
      Attribute.codec.readText text = .ok ⟨"zone",.set ["a","b"]⟩ := by
  intro text zone ms untyped bare
  have hplain : Plain ms := by
    constructor
    · simp [ms,valuesOf]
    · simp [ms,zone,Json.sound,soundItems,record,labelled,soundMembers]
  have huntyped : Plain untyped := by
    constructor
    · simp [untyped,ms,valuesOf]
    · exact fun m hm => hplain.sound m (List.mem_of_mem_take hm)
  have hbare : Plain bare := by
    constructor
    · simp [bare,ms,valuesOf]
    · exact fun m hm => hplain.sound m (List.mem_of_mem_drop hm)
  have hparse : Json.parse text = some (.record ms) := by
    unfold text ms zone
    rfl
  have htags {ms : List (String × Json)} (h : Plain ms) :
      ∀ t, (some "type",t) ∈ labelled ms → ∃ s, t = .string s :=
    fun t ht => h.tags t (mem_labelled_iff.mp ht)
  obtain ⟨hattributes,hvalues,hmissing,htexts⟩ := attributes_read_flat
  have hvalue : AttributeValue.codec.read (.record (besides "name" ms)) = .ok (.set ["a","b"]) := by
    have hpayloads := (hplain.besides "name").payloads
    refine (hvalues _ (htags (hplain.besides "name"))
      (fun j hj => hpayloads j (mem_labelled_iff.mp hj)) _).mpr ⟨_,.set,.array zone,rfl,?_,?_,?_⟩
    · simp [ms,besides,valuesOf,FilterKind.name]
    · simp [ms,besides,valuesOf]
    · exact .set ["a","b"]
  have hattribute : Attribute.codec.read (.record ms) = .ok ⟨"zone",.set ["a","b"]⟩ :=
    (hattributes _ (htags hplain) _).mpr
      ⟨ms,rfl,(hplain.besides "name").sound,by simp [ms,valuesOf],hvalue⟩
  refine ⟨hplain,hvalue,hattribute,huntyped,?_,hbare,?_,
    (hmissing [] ⟨by simp [valuesOf],List.forall_mem_nil _⟩).1 rfl,hparse,?_⟩
  · exact ((hmissing untyped huntyped).2.1 (by simp [untyped,ms,valuesOf])
      (by simp [untyped,ms,valuesOf])).2 "zone" (by simp [untyped,ms,valuesOf])
  · exact ((hmissing bare hbare).2.2 .set (by simp [bare,ms,valuesOf,FilterKind.name])
      (by simp [bare,ms,valuesOf])).2 "zone" (by simp [bare,ms,valuesOf])
  · rw [(htexts text _ hparse).1,mapError_eq_ok_iff]
    exact hattribute

open Json in
/-- A string that spells no text can be passed over in the object of a value, but it cannot be set
aside in that of an attribute. -/
theorem unspelt_text_not_set_aside :
    let text := "\x7b\"name\":\"n\",\"type\":\"text\",\"value\":\"x\",\"z\":\"\\ud800\"\x7d"
    let ms : List (String × Json) := [("name",.string "n"),("type",.string "text"),
      ("value",.string "x"),("z",.void)]
    Json.parse text = some (.record ms) ∧ valuesOf "name" ms = [.string "n"] ∧
      AttributeValue.codec.read (.record (besides "name" ms)) = .ok (.text "x") ∧
      Attribute.codec.readText text = .error (.misfit .shape) := by
  intro text ms
  have hparse : Json.parse text = some (.record ms) := by
    unfold text ms
    rfl
  refine ⟨hparse,rfl,rfl,?_⟩
  rw [Codec.readText_of_parse hparse]
  rfl

end OfferAllocation
