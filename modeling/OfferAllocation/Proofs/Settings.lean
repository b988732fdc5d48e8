import Mathlib
import OfferAllocation.Config.Text
import OfferAllocation.Proofs.Sequence
import OfferAllocation.Proofs.Tables

/-! Settings in configuration text. Of a whole document two entries of one table are of account, and
each of them is the name of a variant, or else the text is refused. -/
namespace OfferAllocation

namespace Toml

/-- The entries of a table in a document; there are none where the document lacks the table. -/
inductive Section (es : List (String × Toml)) (name : String) : List (String × Toml) → Prop
  | absent (h : es.lookup name = none) : Section es name []
  | table {ts} (h : es.lookup name = some (.table ts)) : Section es name ts

/-- A variant is named by a text, or by a table that holds nothing but the name. What stands for the
name there is empty, be it a table or an array. -/
inductive Names (name : String) : Toml → Prop
  | text : Names name (.string name)
  | table : Names name (.table [(name,.table [])])
  | array : Names name (.table [(name,.array [])])

/-- A setting is that which its entry names, or the one for an entry left out. -/
inductive Settles {α : Type} (name : α → String) (otherwise : α) : Option Toml → α → Prop
  | absent : Settles name otherwise none otherwise
  | given {v a} (h : Names (name a) v) : Settles name otherwise (some v) a

theorem Section.distinct {es ts : List (String × Toml)} {name : String} (h : Section es name ts)
    (hes : (Toml.table es).Proper) : Distinct ts := by
  cases h with
  | absent => exact List.nodup_nil
  | table h => exact (hes.entry h).distinct

section Settles

variable {α : Type} {name : α → String} {otherwise a : α} {entry : Option Toml} {v : Toml}

theorem settles_none_iff : Settles name otherwise none a ↔ a = otherwise := by
  constructor
  · rintro ⟨⟩
    rfl
  · rintro rfl
    exact .absent

theorem settles_some_iff : Settles name otherwise (some v) a ↔ Names (name a) v := by
  constructor
  · intro h
    cases h with
    | given h => exact h
  · exact .given

theorem exists_settles_iff :
    (∃ a, Settles name otherwise entry a) ↔ ∀ v, entry = some v → ∃ a, Names (name a) v := by
  cases entry with
  | none => exact iff_of_true ⟨otherwise,.absent⟩ nofun
  | some v => simp [settles_some_iff]

/-- One entry after the other settles what all entries do. -/
theorem settles_cons_iff {e : String × Toml} {es : List (String × Toml)} {k : String}
    (he : es.lookup e.1 = none) : Settles name otherwise ((e :: es).lookup k) a ↔
      ∃ b, Settles name otherwise ([e].lookup k) b ∧ Settles name b (es.lookup k) a := by
  obtain ⟨k',v⟩ := e
  by_cases hk : k' = k
  · subst hk
    rw [List.lookup_cons_self,List.lookup_cons_self,show es.lookup k' = none from he]
    simp [settles_none_iff]
  · rw [lookup_cons_of_ne hk,lookup_cons_of_ne hk,List.lookup_nil]
    simp [settles_none_iff]

end Settles
end Toml

open Toml

theorem variantOfToml_eq_ok_iff {α : Type} {table : List (String × α)} {name : α → String}
    (htable : ∀ {s a}, variantNamed table s = .ok a ↔ s = name a) {v : Toml} {a : α} :
    variantOfToml table v = .ok a ↔ Names (name a) v := by
  constructor
  · intro h
    match v with
    | .string s =>
      obtain rfl := htable.mp h
      exact .text
    | .table [] | .table (_ :: _ :: _) => cases h
    | .table [(k,v)] =>
      obtain ⟨a',ha,hv⟩ := bind_eq_ok_iff.mp h
      rw [htable] at ha
      subst ha
      split at hv
      · cases hv
        exact .table
      · cases hv
        exact .array
      · cases hv
    | .integer _ | .float _ | .boolean _ | .dateTime _ | .array _ => cases h
  · rintro (_ | _ | _)
    · exact htable.mpr rfl
    · exact bind_eq_ok_iff.mpr ⟨a,htable.mpr rfl,rfl⟩
    · exact bind_eq_ok_iff.mpr ⟨a,htable.mpr rfl,rfl⟩

theorem foldlM_filter {α σ ε : Type} {step : σ → α → Except ε σ} {known : α → Bool}
    (h : ∀ a, known a = false → ∀ s, step s a = .ok s) (l : List α) (s : σ) :
    (l.filter known).foldlM step s = l.foldlM step s := by
  induction l generalizing s with
  | nil => rfl
  | cons a l ih =>
    cases ha : known a with
    | true =>
      rw [List.filter_cons_of_pos ha,List.foldlM_cons,List.foldlM_cons]
      exact congrArg _ (funext ih)
    | false =>
      rw [List.filter_cons_of_neg (by simp [ha]),ih,List.foldlM_cons,h a ha]
      rfl

namespace AllocatorSettings

variable {c c' : AllocatorSettings} {es : List (String × Toml)}

/-- The entries that are settings. -/
def isSetting (e : String × Toml) : Bool := e.1 = "filter_mode" || e.1 = "default_strategy"

theorem ofToml_filter (es : List (String × Toml)) :
    ofToml (.table (es.filter isSetting)) = ofToml (.table es) := by
  refine foldlM_filter (fun e he c => ?_) es _
  simp only [isSetting,Bool.or_eq_false_iff,decide_eq_false_iff_not] at he
  rw [setEntry,if_neg he.1,if_neg he.2]

/-- An entry settles what it is the setting of. -/
theorem setEntry_eq_ok_iff {e : String × Toml} : c.setEntry e = .ok c' ↔
    Settles FilterMode.name c.filterMode ([e].lookup "filter_mode") c'.filterMode ∧
      Settles Strategy.name c.defaultStrategy ([e].lookup "default_strategy") c'.defaultStrategy := by
  obtain ⟨k,v⟩ := e
  obtain ⟨mode,strategy⟩ := c
  obtain ⟨mode',strategy'⟩ := c'
  by_cases hmode : k = "filter_mode"
  · subst hmode
    rw [List.lookup_cons_self,settles_some_iff,lookup_cons_of_ne (by decide),List.lookup_nil,
      settles_none_iff,← variantOfToml_eq_ok_iff FilterMode.variantNamed_table_iff]
    refine (map_eq_ok_iff (g := fun mode => AllocatorSettings.mk mode strategy)).trans ?_
    simp [AllocatorSettings.mk.injEq,eq_comm (a := strategy)]
  · rw [lookup_cons_of_ne hmode,List.lookup_nil,settles_none_iff]
    by_cases hstrategy : k = "default_strategy"
    · subst hstrategy
      rw [List.lookup_cons_self,settles_some_iff,
        ← variantOfToml_eq_ok_iff Strategy.variantNamed_table_iff]
      refine (map_eq_ok_iff (g := fun strategy => AllocatorSettings.mk mode strategy)).trans ?_
      simp [AllocatorSettings.mk.injEq,eq_comm (a := mode),and_comm]
    · rw [lookup_cons_of_ne hstrategy,List.lookup_nil,settles_none_iff,setEntry,if_neg hmode,
        if_neg hstrategy]
      simp [eq_comm (a := mode),eq_comm (a := strategy)]

/-- Whatever else is among the entries, each setting is settled by its own. -/
theorem foldlM_eq_ok_iff (h : Distinct es) : es.foldlM setEntry c = .ok c' ↔
    Settles FilterMode.name c.filterMode (es.lookup "filter_mode") c'.filterMode ∧
      Settles Strategy.name c.defaultStrategy (es.lookup "default_strategy") c'.defaultStrategy := by
  induction es generalizing c with
  | nil =>
    obtain ⟨mode,strategy⟩ := c
    obtain ⟨mode',strategy'⟩ := c'
    show Except.ok _ = Except.ok _ ↔ _
    simp only [List.lookup_nil,settles_none_iff,Except.ok.injEq,AllocatorSettings.mk.injEq]
    rw [eq_comm (a := mode),eq_comm (a := strategy)]
  | cons e es ih =>
    obtain ⟨he,hes⟩ := distinct_cons.mp h
    rw [List.foldlM_cons,settles_cons_iff he,settles_cons_iff he]
    refine bind_eq_ok_iff.trans ?_
    simp only [ih hes,setEntry_eq_ok_iff]
    constructor
    · rintro ⟨c,⟨hmode,hstrategy⟩,hmode',hstrategy'⟩
      exact ⟨⟨_,hmode,hmode'⟩,_,hstrategy,hstrategy'⟩
    · rintro ⟨⟨mode,hmode,hmode'⟩,strategy,hstrategy,hstrategy'⟩
      exact ⟨⟨mode,strategy⟩,⟨hmode,hstrategy⟩,hmode',hstrategy'⟩

theorem ofToml_eq_ok_iff (h : Distinct es) : ofToml (.table es) = .ok c ↔
    Settles FilterMode.name .textOnly (es.lookup "filter_mode") c.filterMode ∧
      Settles Strategy.name .nonMux (es.lookup "default_strategy") c.defaultStrategy :=
  foldlM_eq_ok_iff h

theorem ofToml_perm {es' : List (String × Toml)} (h : Distinct es) (hp : es'.Perm es) :
    ofToml (.table es') = .ok c ↔ ofToml (.table es) = .ok c := by
  rw [ofToml_eq_ok_iff (h.perm hp),ofToml_eq_ok_iff h,h.lookup_perm hp,h.lookup_perm hp]

end AllocatorSettings

namespace Config

variable {c : Config} {es ts : List (String × Toml)} {text : String}

/-- The one entry of account decides. -/
theorem foldlM_eq (h : Distinct es) : es.foldlM setEntry c = match es.lookup "allocator" with
    | none => .ok c
    | some v => (AllocatorSettings.ofToml v).map fun a => { c with allocator := a } := by
  induction es generalizing c with
  | nil => rfl
  | cons e es ih =>
    obtain ⟨k,v⟩ := e
    obtain ⟨hk,hes⟩ := distinct_cons.mp h
    rw [List.foldlM_cons]
    by_cases hallocator : k = "allocator"
    · subst hallocator
      have hrest (c : Config) : es.foldlM setEntry c = .ok c := by
        rw [ih hes,show es.lookup "allocator" = none from hk]
      have hset : setEntry c ("allocator",v) =
          (AllocatorSettings.ofToml v).map fun a => { c with allocator := a } := rfl
      rw [List.lookup_cons_self,hset]
      simp only [hrest]
      exact bind_pure _
    · have hset : setEntry c (k,v) = .ok c := by rw [setEntry,if_neg hallocator]
      rw [lookup_cons_of_ne hallocator,hset,← ih hes]
      rfl

theorem ofEntries_eq (h : Distinct es) (hs : Section es "allocator" ts) :
    ofEntries es = (AllocatorSettings.ofToml (.table ts)).map Config.mk := by
  rw [ofEntries,foldlM_eq h]
  cases hs with
  | absent h =>
    rw [h]
    rfl
  | table h => rw [h]

/-- A text that is in order is read as the settings in its one table are. -/
theorem ofText_eq (hparse : Toml.parse text = some es) (hs : Section es "allocator" ts) :
    ofText text = ((AllocatorSettings.ofToml (.table ts)).map Config.mk).mapError .misfit := by
  rw [← ofEntries_eq (Toml.parse_proper hparse).distinct hs]
  simp only [ofText,hparse]
  cases ofEntries es <;> rfl

theorem ofText_eq_ok_iff (hparse : Toml.parse text = some es) (hs : Section es "allocator" ts) :
    ofText text = .ok c ↔ AllocatorSettings.ofToml (.table ts) = .ok c.allocator := by
  obtain ⟨settings⟩ := c
  rw [ofText_eq hparse hs]
  cases AllocatorSettings.ofToml (.table ts) <;> simp [Except.map,Except.mapError]

end Config

/-- A text that is in order, and in which `allocator` is a table if it is there, is read just if each
of the two settings in the table is left out or names a variant. A setting left out has its default.
Beside the two settings a text may hold whatever it likes, and the order of its entries is all one. -/
theorem settings_from_text {text : String} {es ts : List (String × Toml)}
    (hparse : Toml.parse text = some es) (hs : Section es "allocator" ts) :
    (∀ c, Config.ofText text = .ok c ↔
      Settles FilterMode.name .textOnly (ts.lookup "filter_mode") c.allocator.filterMode ∧
        Settles Strategy.name .nonMux (ts.lookup "default_strategy") c.allocator.defaultStrategy) ∧
    ((∃ c, Config.ofText text = .ok c) ↔
      (∀ v, ts.lookup "filter_mode" = some v → ∃ mode : FilterMode, Names mode.name v) ∧
        ∀ v, ts.lookup "default_strategy" = some v → ∃ strategy : Strategy, Names strategy.name v) ∧
    (∀ text' es' ts', Toml.parse text' = some es' → Section es' "allocator" ts' →
      ts'.filter AllocatorSettings.isSetting = ts.filter AllocatorSettings.isSetting →
        Config.ofText text' = Config.ofText text) ∧
    ∀ text' es' ts', Toml.parse text' = some es' → Section es' "allocator" ts' →
      (ts'.filter AllocatorSettings.isSetting).Perm (ts.filter AllocatorSettings.isSetting) →
        ∀ c, Config.ofText text' = .ok c ↔ Config.ofText text = .ok c := by
  have hts : Distinct ts := hs.distinct (Toml.parse_proper hparse)
  have hread (c : Config) := (Config.ofText_eq_ok_iff (c := c) hparse hs).trans
    (AllocatorSettings.ofToml_eq_ok_iff hts)
  refine ⟨hread,?_,fun text' es' ts' hparse' hs' h => ?_,fun text' es' ts' hparse' hs' h c => ?_⟩
  · rw [← exists_settles_iff,← exists_settles_iff]
    simp only [hread]
    constructor
    · rintro ⟨c,hmode,hstrategy⟩
      exact ⟨⟨_,hmode⟩,_,hstrategy⟩
    · rintro ⟨⟨mode,hmode⟩,strategy,hstrategy⟩
      exact ⟨⟨mode,strategy⟩,hmode,hstrategy⟩
  · rw [Config.ofText_eq hparse' hs',Config.ofText_eq hparse hs,← AllocatorSettings.ofToml_filter ts',
      h,AllocatorSettings.ofToml_filter]
  · rw [Config.ofText_eq_ok_iff hparse' hs',Config.ofText_eq_ok_iff hparse hs,
      ← AllocatorSettings.ofToml_filter ts',AllocatorSettings.ofToml_perm (hts.filter _) h,
      AllocatorSettings.ofToml_filter]

theorem settings_from_text_two_orders :
    let text := "[allocator]\ndefault_strategy = \"mux\"\nz = 3\nfilter_mode = \"full\""
    let dotted := "allocator.filter_mode = \"full\"\nallocator.default_strategy = \"mux\""
    let mode : String × Toml := ("filter_mode",.string "full")
    let strategy : String × Toml := ("default_strategy",.string "mux")
    let ts := [strategy,("z",.integer 3),mode]
    Toml.parse text = some [("allocator",.table ts)] ∧ Config.ofText text = .ok ⟨⟨.full,.mux⟩⟩ ∧
      Toml.parse dotted = some [("allocator",.table [mode,strategy])] ∧
      Config.ofText dotted = .ok ⟨⟨.full,.mux⟩⟩ := by
  intro text dotted mode strategy ts
  have hparse : Toml.parse text = some [("allocator",.table ts)] := by
    unfold text ts mode strategy
    cbv
  have hparse' : Toml.parse dotted = some [("allocator",.table [mode,strategy])] := by
    unfold dotted mode strategy
    cbv
  obtain ⟨hread,-,-,horder⟩ := settings_from_text hparse (.table rfl)
  have htext : Config.ofText text = .ok ⟨⟨.full,.mux⟩⟩ := (hread _).mpr ⟨.given .text,.given .text⟩
  refine ⟨hparse,htext,hparse',?_⟩
  exact (horder _ _ _ hparse' (.table rfl) (List.Perm.swap _ _ _) _).mpr htext

/-- An empty array does for a variant where an empty table is meant. -/
theorem empty_array_for_variant :
    let text := "allocator.filter_mode.full = []"
    let value : Toml := .table [("full",.array [])]
    Toml.parse text = some [("allocator",.table [("filter_mode",value)])] ∧
      Config.ofText text = .ok ⟨⟨.full,.nonMux⟩⟩ ∧
      ∀ mode : FilterMode, value ≠ .string mode.name ∧ value ≠ .table [(mode.name,.table [])] := by
  intro text value
  have hparse : Toml.parse text = some [("allocator",.table [("filter_mode",value)])] := by cbv
  refine ⟨hparse,?_,fun mode => ⟨by simp [value],by simp [value]⟩⟩
  simp only [Config.ofText,hparse]
  rfl

end OfferAllocation
