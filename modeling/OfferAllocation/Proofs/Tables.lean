import Mathlib.Data.List.Nodup
import OfferAllocation.Toml.Document

/-! Names in configuration text. Headers, dotted keys and tables between braces may take turns in
describing a table, and still no name comes to stand in it twice. -/
namespace OfferAllocation
namespace Toml

/-- No name is used twice. -/
def Distinct {α : Type} (es : List (String × α)) : Prop := (es.map Prod.fst).Nodup

section Distinct

variable {α : Type} {es : List (String × α)} {e : String × α} {k : String} {a : α}

theorem distinct_cons : Distinct (e :: es) ↔ es.lookup e.1 = none ∧ Distinct es := by
  simp only [Distinct,List.map_cons,List.nodup_cons,List.lookup_eq_none_iff,List.mem_map,not_exists,
    not_and,bne_iff_ne,ne_eq,eq_comm (a := e.1)]

theorem Distinct.append_new (h : Distinct es) (hk : es.lookup k = none) :
    Distinct (es ++ [(k,a)]) := by
  rw [List.lookup_eq_none_iff] at hk
  rw [Distinct,List.map_append,List.nodup_append]
  refine ⟨h,List.nodup_singleton _,fun x hx y hy => ?_⟩
  obtain ⟨e,he,rfl⟩ := List.mem_map.mp hx
  obtain rfl := List.mem_singleton.mp hy
  exact Ne.symm (bne_iff_ne.mp (hk e he))

theorem Distinct.filter (h : Distinct es) (p : String × α → Bool) : Distinct (es.filter p) :=
  h.sublist (List.filter_sublist.map _)

theorem Distinct.perm {es' : List (String × α)} (h : Distinct es) (hp : es'.Perm es) :
    Distinct es' := (hp.map Prod.fst).nodup_iff.mpr h

theorem mem_of_lookup (h : es.lookup k = some a) : (k,a) ∈ es := by
  obtain ⟨before,after,rfl,-⟩ := List.lookup_eq_some_iff.mp h
  simp

theorem lookup_cons_of_ne {k' : String} (h : k' ≠ k) : ((k',a) :: es).lookup k = es.lookup k := by
  rw [List.lookup_cons,beq_false_of_ne h.symm]

theorem Distinct.lookup_eq_some_iff (h : Distinct es) : es.lookup k = some a ↔ (k,a) ∈ es := by
  refine ⟨mem_of_lookup,fun hmem => ?_⟩
  induction es with
  | nil => cases hmem
  | cons e es ih =>
    obtain ⟨k',a'⟩ := e
    obtain ⟨hk',hes⟩ := distinct_cons.mp h
    obtain heq | hmem := List.mem_cons.mp hmem
    · cases heq
      exact List.lookup_cons_self
    · have hne : k' ≠ k := by
        rintro rfl
        simp [ih hes hmem] at hk'
      rw [lookup_cons_of_ne hne,ih hes hmem]

/-- The order of distinct names is of no account. -/
theorem Distinct.lookup_perm {es' : List (String × α)} (h : Distinct es) (hp : es'.Perm es)
    (k : String) : es'.lookup k = es.lookup k := by
  refine Option.ext fun a => ?_
  rw [(h.perm hp).lookup_eq_some_iff,h.lookup_eq_some_iff,hp.mem_iff]

end Distinct

/-- A value that holds no others. -/
def IsLeaf : Toml → Prop
  | .array _ => False
  | .table _ => False
  | _ => True

/-- The names in each table of a tree are distinct. -/
inductive Proper : Toml → Prop
  | leaf {v} (h : v.IsLeaf) : Proper v
  | array {vs} (items : ∀ v ∈ vs, Proper v) : Proper (.array vs)
  | table {es} (distinct : Distinct es) (values : ∀ e ∈ es, Proper e.2) : Proper (.table es)

theorem Proper.distinct {es : List (String × Toml)} (h : (Toml.table es).Proper) : Distinct es := by
  cases h with
  | leaf h => exact h.elim
  | table distinct _ => exact distinct

theorem Proper.entry {es : List (String × Toml)} (h : (Toml.table es).Proper) {k : String} {v : Toml}
    (hk : es.lookup k = some v) : v.Proper := by
  cases h with
  | leaf h => exact h.elim
  | table _ values => exact values _ (mem_of_lookup hk)

/-- The names in each table under construction are distinct. -/
inductive Node.Proper : Node → Prop
  | value {v} (h : v.Proper) : Node.Proper (.value v)
  | table {o es} (distinct : Distinct es) (nodes : ∀ e ∈ es, Node.Proper e.2) :
    Node.Proper (.table o es)
  | tables {ts} (distinct : ∀ es ∈ ts, Distinct es) (nodes : ∀ es ∈ ts, ∀ e ∈ es, Node.Proper e.2) :
    Node.Proper (.tables ts)

structure Entries.Proper (es : Entries) : Prop where
  distinct : Distinct es
  nodes : ∀ e ∈ es, e.2.Proper

theorem treeEntries_eq (es : Entries) : treeEntries es = es.map fun e => (e.1,e.2.tree) := by
  induction es with
  | nil => rfl
  | cons e es ih => rw [treeEntries,ih,List.map_cons]

theorem treeElements_eq (ts : List Entries) :
    treeElements ts = ts.map fun es => .table (treeEntries es) := by
  induction ts with
  | nil => rfl
  | cons es ts ih => rw [treeElements,ih,List.map_cons]

theorem proper_treeEntries {es : Entries} (distinct : Distinct es)
    (nodes : ∀ e ∈ es, e.2.tree.Proper) : (Toml.table (treeEntries es)).Proper := by
  rw [treeEntries_eq]
  refine .table ?_ (List.forall_mem_map.mpr nodes)
  rw [Distinct,List.map_map]
  exact distinct

theorem Node.Proper.tree {n : Node} (h : n.Proper) : n.tree.Proper := by
  induction h with
  | value h => exact h
  | table distinct _ ih => exact proper_treeEntries distinct ih
  | tables distinct _ ih =>
    refine .array ?_
    rw [treeElements_eq,List.forall_mem_map]
    exact fun es hes => proper_treeEntries (distinct es hes) (ih es hes)

theorem Entries.Proper.tree {es : Entries} (h : es.Proper) : (Toml.table (treeEntries es)).Proper :=
  (Node.Proper.table (o := .header) h.distinct h.nodes).tree

namespace Entries

variable {es es' : Entries} {ts : List Entries} {o : Origin} {n : Node} {k : String}
  {ks : List String}

theorem proper_nil : Entries.Proper [] := ⟨List.nodup_nil,List.forall_mem_nil _⟩

theorem proper_table_iff : (Node.table o es).Proper ↔ es.Proper :=
  ⟨fun | .table distinct nodes => ⟨distinct,nodes⟩,fun h => .table h.distinct h.nodes⟩

theorem proper_tables_iff : (Node.tables ts).Proper ↔ ∀ es ∈ ts, Entries.Proper es :=
  ⟨fun | .tables distinct nodes => fun es hes => ⟨distinct es hes,nodes es hes⟩,
    fun h => .tables (fun es hes => (h es hes).distinct) fun es hes => (h es hes).nodes⟩

namespace Proper

theorem node (h : es.Proper) (hk : es.lookup k = some n) : n.Proper := h.nodes _ (mem_of_lookup hk)

theorem append_new (h : es.Proper) (hk : es.lookup k = none) (hn : n.Proper) :
    Entries.Proper (es ++ [(k,n)]) where
  distinct := h.distinct.append_new hk
  nodes e he := by
    obtain he | rfl := List.mem_append.mp he |>.imp_right List.mem_singleton.mp
    · exact h.nodes e he
    · exact hn

theorem filter (h : es.Proper) (p : String × Node → Bool) : Entries.Proper (es.filter p) :=
  ⟨h.distinct.filter p,fun e he => h.nodes e (List.mem_of_mem_filter he)⟩

theorem replace (h : es.Proper) (hn : n.Proper) : (es.replace k n).Proper where
  distinct := by
    have hnames : (es.replace k n).map Prod.fst = es.map Prod.fst := by
      rw [Entries.replace,List.map_map]
      refine List.map_congr_left fun e _ => ?_
      by_cases he : e.1 = k <;> simp [he]
    rw [Distinct,hnames]
    exact h.distinct
  nodes := by
    rw [Entries.replace,List.forall_mem_map]
    intro e he
    split
    · exact hn
    · exact h.nodes e he

theorem replace_table {t t' : Entries} (h : es.Proper) (hk : es.lookup k = some (.table o t))
    (step : t.Proper → t'.Proper) : (es.replace k (.table o t')).Proper :=
  h.replace (proper_table_iff.mpr (step (proper_table_iff.mp (h.node hk))))

/-- The latest element of an array of tables is taken for another. -/
theorem replace_latest {t t' : Entries} (h : es.Proper) (hk : es.lookup k = some (.tables ts))
    (ht : ts.getLast? = some t) (step : t.Proper → t'.Proper) :
    (es.replace k (.tables (ts.dropLast ++ [t']))).Proper := by
  have hts : ∀ t ∈ ts, Entries.Proper t := proper_tables_iff.mp (h.node hk)
  refine h.replace (proper_tables_iff.mpr (List.forall_mem_append.mpr ⟨fun t ht => ?_,?_⟩))
  · exact hts t (List.dropLast_subset _ ht)
  · exact List.forall_mem_singleton.mpr (step (hts t (List.mem_of_getLast? ht)))

end Proper

/-! What is done to a table leaves its names distinct, and so do all statements of a text. -/

variable {f : Entries → Option Entries} {v : Toml} {last : String}

theorem Proper.within (step : ∀ es es', es.Proper → f es = some es' → es'.Proper) (h : es.Proper)
    (hf : es.within f ks = some es') : es'.Proper := by
  induction ks generalizing es es' with
  | nil => exact step es es' h hf
  | cons k ks ih =>
    rw [Entries.within] at hf
    split at hf
    next hk =>
      obtain ⟨t,ht,rfl⟩ := Option.map_eq_some_iff.mp hf
      exact h.append_new hk (proper_table_iff.mpr (ih proper_nil ht))
    next => cases hf
    next o t hk =>
      obtain ⟨t',ht,rfl⟩ := Option.map_eq_some_iff.mp hf
      exact h.replace_table hk fun h => ih h ht
    next ts hk =>
      obtain ⟨t,ht,hf⟩ := Option.bind_eq_some_iff.mp hf
      obtain ⟨t',ht',hf⟩ := Option.bind_eq_some_iff.mp hf
      cases hf
      exact h.replace_latest hk ht fun h => ih h ht'

theorem Proper.openTable (h : es.Proper) (hf : es.openTable k = some es') : es'.Proper := by
  rw [Entries.openTable] at hf
  split at hf
  next hk =>
    cases hf
    exact h.append_new hk (proper_table_iff.mpr proper_nil)
  next t hk =>
    cases hf
    have hgone : (es.filter fun e => e.1 ≠ k).lookup k = none := by
      rw [List.lookup_eq_none_iff]
      intro e he
      exact bne_iff_ne.mpr (Ne.symm (of_decide_eq_true (List.mem_filter.mp he).2))
    exact (h.filter _).append_new hgone (proper_table_iff.mpr (proper_table_iff.mp (h.node hk)))
  next => cases hf

theorem Proper.openElement (h : es.Proper) (hf : es.openElement k = some es') : es'.Proper := by
  rw [Entries.openElement] at hf
  split at hf
  next hk =>
    cases hf
    exact h.append_new hk (proper_tables_iff.mpr (List.forall_mem_singleton.mpr proper_nil))
  next ts hk =>
    cases hf
    refine h.replace (proper_tables_iff.mpr (List.forall_mem_append.mpr ?_))
    exact ⟨proper_tables_iff.mp (h.node hk),List.forall_mem_singleton.mpr proper_nil⟩
  next => cases hf

theorem Proper.give (hv : v.Proper) (h : es.Proper) (hf : es.give last v ks = some es') :
    es'.Proper := by
  induction ks generalizing es es' with
  | nil =>
    rw [Entries.give] at hf
    split at hf
    next => cases hf
    next hlast =>
      cases hf
      exact h.append_new (Option.not_isSome_iff_eq_none.mp hlast) (.value hv)
  | cons k ks ih =>
    rw [Entries.give] at hf
    split at hf
    next hk =>
      obtain ⟨t,ht,rfl⟩ := Option.map_eq_some_iff.mp hf
      exact h.append_new hk (proper_table_iff.mpr (ih proper_nil ht))
    next t hk =>
      obtain ⟨t',ht,rfl⟩ := Option.map_eq_some_iff.mp hf
      exact h.replace_table hk fun h => ih h ht
    next t hk =>
      split at hf
      next => cases hf
      next =>
        obtain ⟨t',ht,rfl⟩ := Option.map_eq_some_iff.mp hf
        exact h.replace_table hk fun h => ih h ht
    next ts hk =>
      split at hf
      next => cases hf
      next =>
        obtain ⟨t,ht,hf⟩ := Option.bind_eq_some_iff.mp hf
        obtain ⟨t',ht',hf⟩ := Option.bind_eq_some_iff.mp hf
        cases hf
        exact h.replace_latest hk ht fun h => ih h ht'
    next => cases hf

end Entries

/-- What is stated is in order itself. -/
def Statement.Proper : Statement → Prop
  | .pair _ v => v.Proper
  | _ => True

theorem Draft.step_proper {d d' : Draft} {s : Statement} (hs : s.Proper) (h : d.root.Proper)
    (hd : d.step s = some d') : d'.root.Proper := by
  cases s with
  | table k =>
    obtain ⟨es,hes,rfl⟩ := Option.map_eq_some_iff.mp hd
    exact h.within (fun _ _ => .openTable) hes
  | element k =>
    obtain ⟨es,hes,rfl⟩ := Option.map_eq_some_iff.mp hd
    exact h.within (fun _ _ => .openElement) hes
  | pair k v =>
    obtain ⟨es,hes,rfl⟩ := Option.map_eq_some_iff.mp hd
    exact h.within (fun _ _ => .give hs) hes

/-- What each step keeps, a run of steps keeps. -/
theorem foldlM_keeps {α σ : Type} {step : σ → α → Option σ} {l : List α} {s s' : σ} (keeps : σ → Prop)
    (hstep : ∀ a ∈ l, ∀ s s', keeps s → step s a = some s' → keeps s') (hs : keeps s)
    (hl : l.foldlM step s = some s') : keeps s' := by
  induction l generalizing s with
  | nil =>
    cases hl
    exact hs
  | cons a l ih =>
    obtain ⟨ha,hl'⟩ := List.forall_mem_cons.mp hstep
    rw [List.foldlM_cons] at hl
    obtain ⟨t,ht,hl⟩ := Option.bind_eq_some_iff.mp hl
    exact ih hl' (ha s t hs ht) hl

theorem ofStatements_proper {ss : List Statement} {es : List (String × Toml)}
    (hss : ∀ s ∈ ss, s.Proper) (h : ofStatements ss = some es) : (Toml.table es).Proper := by
  obtain ⟨d,hd,h⟩ := Option.bind_eq_some_iff.mp h
  cases h
  have hroot : d.root.Proper := foldlM_keeps (fun d : Draft => d.root.Proper)
    (fun s hs _ _ => Draft.step_proper (hss s hs)) Entries.proper_nil hd
  exact hroot.tree

theorem ofPairs_proper {ps : List (Key × Toml)} {v : Toml} (hps : ∀ p ∈ ps, p.2.Proper)
    (h : ofPairs ps = some v) : v.Proper := by
  obtain ⟨es,hes,h⟩ := Option.bind_eq_some_iff.mp h
  cases h
  have hroot : es.Proper := foldlM_keeps Entries.Proper
    (fun p hp _ _ => Entries.Proper.give (hps p hp)) Entries.proper_nil hes
  exact hroot.tree

/-! Values as they are read. -/

theorem signed64_isLeaf {n : Int} {v : Toml} (h : signed64 n = some v) : v.IsLeaf := by
  rw [signed64] at h
  split at h <;> cases h
  trivial

theorem based?_isLeaf {base : Nat} {cs : List Char} {v : Toml} (h : based? base cs = some v) :
    v.IsLeaf := by
  rw [based?] at h
  split at h
  · exact signed64_isLeaf h
  · cases h

theorem decimal?_isLeaf {negative : Bool} {cs : List Char} {v : Toml}
    (h : decimal? negative cs = some v) : v.IsLeaf := by
  obtain ⟨⟨whole,rest⟩,-,h⟩ := Option.bind_eq_some_iff.mp h
  dsimp only at h
  split at h
  · exact signed64_isLeaf h
  · obtain ⟨⟨fraction,rest⟩,-,h⟩ := Option.bind_eq_some_iff.mp h
    obtain ⟨e,-,h⟩ := Option.bind_eq_some_iff.mp h
    split at h <;> cases h
    trivial

theorem number?_isLeaf {cs : List Char} {v : Toml} (h : number? cs = some v) : v.IsLeaf := by
  unfold number? at h
  split at h
  · exact based?_isLeaf h
  · exact based?_isLeaf h
  · exact based?_isLeaf h
  · dsimp only at h
    split at h
    · cases h
      trivial
    · split at h
      · cases h
        trivial
      · exact decimal?_isLeaf h

theorem scalar?_isLeaf {cs : List Char} {v : Toml} (h : scalar? cs = some v) : v.IsLeaf := by
  rw [scalar?] at h
  split_ifs at h
  · cases h
    trivial
  · cases h
    trivial
  · cases h
    trivial
  · exact number?_isLeaf h

end Toml

namespace Reader

variable {α β : Type} {p q : Reader α} {P : α → Prop} {Q : β → Prop}

/-- Whatever is read has a property. -/
def Gives (p : Reader α) (P : α → Prop) : Prop := ∀ cs a rest, p cs = some (a,rest) → P a

theorem gives_any (p : Reader α) : p.Gives fun _ => True := fun _ _ _ _ => trivial

theorem gives_pure {a : α} (h : P a) : (pure a : Reader α).Gives P := by
  rintro cs a' rest ⟨⟩
  exact h

theorem gives_lift {o : Option α} (h : ∀ a, o = some a → P a) :
    Gives (StateT.lift o) P := by
  intro cs a rest hread
  obtain ⟨a',ha,hread⟩ := Option.bind_eq_some_iff.mp hread
  cases hread
  exact h a ha

namespace Gives

theorem bind {f : α → Reader β} (hp : p.Gives P) (hf : ∀ a, P a → (f a).Gives Q) :
    (p >>= f).Gives Q := by
  intro cs b rest hread
  obtain ⟨⟨a,cs'⟩,ha,hread⟩ := Option.bind_eq_some_iff.mp hread
  exact hf a (hp cs a cs' ha) cs' b rest hread

/-- What is read first may be of no account. -/
theorem after {f : α → Reader β} (hf : ∀ a, (f a).Gives Q) : (p >>= f).Gives Q :=
  (gives_any p).bind fun a _ => hf a

theorem map {f : α → β} (hp : p.Gives P) (hf : ∀ a, P a → Q (f a)) : (f <$> p).Gives Q := by
  intro cs b rest hread
  obtain ⟨⟨a,cs'⟩,ha,hread⟩ := Option.bind_eq_some_iff.mp hread
  cases hread
  exact hf a (hp cs a _ ha)

theorem orElse (hp : p.Gives P) (hq : q.Gives P) : (p <|> q).Gives P := by
  intro cs a rest hread
  have hor : (p cs).or (q cs) = some (a,rest) := by
    rw [← hread]
    show _ = (p cs <|> q cs)
    cases p cs <;> rfl
  obtain hread | ⟨-,hread⟩ := Option.or_eq_some_iff.mp hor
  · exact hp cs a rest hread
  · exact hq cs a rest hread

theorem rounds (hp : p.Gives P) (cs : List Char) : ∀ a ∈ (rounds p cs).1, P a := by
  induction cs using rounds.induct p with
  | case1 cs hread =>
    rw [Reader.rounds,hread]
    exact List.forall_mem_nil _
  | case2 cs a rest hread hlength as rest' hrounds ih =>
    rw [Reader.rounds,hread]
    simp only [hlength,if_true]
    exact List.forall_mem_cons.mpr ⟨hp cs a rest hread,ih⟩
  | case3 cs a rest hread hlength =>
    rw [Reader.rounds,hread]
    simp only [hlength,if_false]
    exact List.forall_mem_nil _

theorem many (hp : p.Gives P) : (many p).Gives fun as => ∀ a ∈ as, P a := by
  intro cs as rest hread
  have has : (p.rounds cs).1 = as := congrArg Prod.fst (Option.some.inj hread)
  exact has ▸ hp.rounds cs

theorem separated (hp : p.Gives P) (separator : Reader Unit) :
    (separated p separator).Gives fun as => ∀ a ∈ as, P a := by
  refine orElse (hp.bind fun a ha => (many (after fun _ => hp)).bind fun as has => ?_) ?_
  · exact gives_pure (List.forall_mem_cons.mpr ⟨ha,has⟩)
  · exact gives_pure (List.forall_mem_nil _)

end Gives
end Reader

namespace Toml

open Reader

variable {item : Reader Toml}

theorem atom_gives : Gives atom Proper := by
  have hscalar (cs : List Char) : Gives (StateT.lift (scalar? cs)) Proper :=
    gives_lift fun _ h => .leaf (scalar?_isLeaf h)
  refine .after fun cs => ?_
  dsimp only
  split
  · exact .after hscalar
  · exact .after hscalar

theorem leaf_gives : Gives leaf Proper :=
  .orElse ((gives_any anyString).map fun _ _ => .leaf trivial) atom_gives

theorem listOf_gives (h : item.Gives Proper) : (listOf item).Gives Proper := by
  have hspaced : Gives (item >>= fun v => filling >>= fun _ => pure v) Proper :=
    h.bind fun v hv => .after fun _ => gives_pure hv
  refine .after fun _ => .after fun _ => (hspaced.separated _).bind fun vs hvs => ?_
  have hend : Gives (mark ']' >>= fun _ => pure (Toml.array vs)) Proper :=
    .after fun _ => gives_pure (.array hvs)
  split
  · exact .after fun _ => hend
  · exact hend

theorem pair_gives (h : item.Gives Proper) : (pair item).Gives fun p => p.2.Proper :=
  .after fun _ => .after fun _ => .after fun _ => h.bind fun _ hv => .after fun _ => gives_pure hv

theorem tableOf_gives (h : item.Gives Proper) : (tableOf item).Gives Proper :=
  .after fun _ => ((pair_gives h).separated _).bind fun _ hps =>
    .after fun _ => .after fun _ => gives_lift fun _ => ofPairs_proper hps

theorem value_gives (depth : Nat) : (value depth).Gives Proper := by
  induction depth with
  | zero => exact leaf_gives
  | succ depth ih =>
    refine .after fun c => ?_
    split
    · exact listOf_gives ih
    · exact tableOf_gives ih
    · exact leaf_gives

theorem statement_gives : Gives statement Statement.Proper :=
  .orElse ((gives_any _).map fun _ _ => trivial) <|
    .orElse ((gives_any _).map fun _ _ => trivial) <|
      (pair_gives (value_gives _)).bind fun _ hv => gives_pure hv

theorem line_gives : Gives line fun ss => ∀ s ∈ ss, s.Proper := by
  refine .after fun _ => Gives.bind (P := fun ss => ∀ s ∈ ss, s.Proper) ?_ fun ss hss =>
    .after fun _ => gives_pure hss
  exact .orElse (statement_gives.map fun s hs => List.forall_mem_singleton.mpr hs)
    (gives_pure (List.forall_mem_nil _))

theorem statements_gives : Gives statements fun ss => ∀ s ∈ ss, s.Proper := by
  refine .after fun _ => line_gives.many.bind fun lines hlines => .after fun _ => gives_pure ?_
  intro s hs
  obtain ⟨ss,hss,hs⟩ := List.mem_flatten.mp hs
  exact hlines ss hss s hs

/-- In a document that is in order the names in each table are distinct. -/
theorem parse_proper {text : String} {es : List (String × Toml)} (h : parse text = some es) :
    (Toml.table es).Proper := by
  obtain ⟨⟨ss,rest⟩,hss,h⟩ := Option.bind_eq_some_iff.mp h
  exact ofStatements_proper (statements_gives _ ss rest hss) h

end Toml
end OfferAllocation
