import Mathlib.Data.List.Induction
import Mathlib.Logic.Relation
import OfferAllocation.Proofs.History
import OfferAllocation.Proofs.Likeness

/-! Resource lines. Offers and tasks are read line by line, and of the lines only those count that are
named for the two axes and for the disk. An offer goes by the last line of each name, and a task by
the sum of all. What other lines there are, and how lines of different names are mixed, is of no
account to any call. -/
namespace OfferAllocation

section LinesNamed

variable {name : String} {rs : List Resource} {r : Resource}

theorem linesNamed_concat :
    linesNamed name (rs ++ [r]) = linesNamed name rs ++ if r.name = name then [r] else [] := by
  simp [linesNamed,List.filter_singleton,cond_eq_ite]

theorem linesNamed_linesNamed (name' : String) :
    linesNamed name (linesNamed name' rs) = if name = name' then linesNamed name rs else [] := by
  rw [linesNamed,linesNamed,List.filter_filter]
  split_ifs with h
  · subst h
    simp [linesNamed]
  · refine List.filter_eq_nil_iff.mpr fun r _ => ?_
    simp only [Bool.and_eq_true,beq_iff_eq,not_and]
    rintro rfl
    exact h

end LinesNamed

/-! One line after the other. -/

namespace Entry

/-- An offer of which no line has been read. -/
def unread (n : Nat) (o : Offer) : Entry := ⟨n,o,0,0,none,false⟩

/-- One more line is read. What it says stands in place of what was said before, and that may be
nothing. -/
def readLine (e : Entry) (r : Resource) : Entry :=
  if r.name = "cpus" then { e with cpu := r.value }
  else if r.name = "mem" then { e with mem := r.value }
  else if r.name = "disk" then { e with disk := r.disk }
  else e

variable {name : String} {rs : List Resource} {r : Resource}

theorem lastAmount_concat :
    lastAmount name (rs ++ [r]) = if r.name = name then r.value else lastAmount name rs := by
  rw [lastAmount,linesNamed_concat]
  split_ifs
  · simp
  · simp [lastAmount]

theorem lastDisk_concat :
    lastDisk (rs ++ [r]) = if r.name = "disk" then r.disk else lastDisk rs := by
  rw [lastDisk,linesNamed_concat]
  split_ifs
  · simp
  · simp [lastDisk]

theorem foldl_readLine (n : Nat) (o : Offer) (rs : List Resource) :
    rs.foldl readLine (unread n o) =
      ⟨n,o,lastAmount "cpus" rs,lastAmount "mem" rs,lastDisk rs,false⟩ := by
  induction rs using List.reverseRecOn with
  | nil => rfl
  | append_singleton rs r ih =>
    rw [List.foldl_append,ih,lastAmount_concat,lastAmount_concat,lastDisk_concat,List.foldl_cons,
      List.foldl_nil,readLine]
    by_cases hcpus : r.name = "cpus"
    · simp [hcpus]
    · by_cases hmem : r.name = "mem"
      · simp [hmem]
      · by_cases hdisk : r.name = "disk" <;> simp [hcpus,hmem,hdisk]

end Entry

namespace Demand

/-- What no line demands. -/
def nothing : Demand := ⟨0,0,none⟩

/-- One more line is read. An amount is added to those before, and a disk stands in place of one
before. -/
def readLine (d : Demand) (r : Resource) : Demand :=
  if r.name = "cpus" then { d with cpu := d.cpu + r.value }
  else if r.name = "mem" then { d with mem := d.mem + r.value }
  else if r.name = "disk" then { d with disk := r.disk.or d.disk }
  else d

variable {name : String} {rs : List Resource} {r : Resource}

/-- The last disk that is described. -/
def lastDescribed (rs : List Resource) : Option Disk :=
  ((linesNamed "disk" rs).filterMap Resource.disk).getLast?

theorem total_concat :
    total name (rs ++ [r]) = if r.name = name then total name rs + r.value else total name rs := by
  rw [total,linesNamed_concat]
  split_ifs <;> simp [total]

theorem lastDescribed_concat :
    lastDescribed (rs ++ [r]) =
      if r.name = "disk" then r.disk.or (lastDescribed rs) else lastDescribed rs := by
  rw [lastDescribed,linesNamed_concat]
  split_ifs
  · cases h : r.disk <;> simp [lastDescribed,h]
  · simp [lastDescribed]

theorem foldl_readLine (rs : List Resource) :
    rs.foldl readLine nothing = ⟨total "cpus" rs,total "mem" rs,lastDescribed rs⟩ := by
  induction rs using List.reverseRecOn with
  | nil => rfl
  | append_singleton rs r ih =>
    rw [List.foldl_append,ih,total_concat,total_concat,lastDescribed_concat,List.foldl_cons,
      List.foldl_nil,readLine]
    by_cases hcpus : r.name = "cpus"
    · simp [hcpus]
    · by_cases hmem : r.name = "mem"
      · simp [hmem]
      · by_cases hdisk : r.name = "disk" <;> simp [hcpus,hmem,hdisk]

end Demand

/-! What the lines come to. -/

/-- The last line with a property, if any line has it. -/
inductive LastLine (p : Resource → Prop) : List Resource → Option Resource → Prop
  | none {rs : List Resource} (without : ∀ r ∈ rs, ¬ p r) : LastLine p rs none
  | line {before after : List Resource} {r : Resource} (has : p r) (last : ∀ s ∈ after, ¬ p s) :
    LastLine p (before ++ r :: after) (some r)

theorem LastLine.concat {p : Resource → Prop} {rs : List Resource} {r : Resource}
    {found : Option Resource} (h : LastLine p rs found) (hr : ¬ p r) : LastLine p (rs ++ [r]) found := by
  cases h with
  | none without => exact .none (List.forall_mem_append.mpr ⟨without,by simpa using hr⟩)
  | line has last =>
    rw [List.append_assoc,List.cons_append]
    exact .line has (List.forall_mem_append.mpr ⟨last,by simpa using hr⟩)

/-- An offer advertises the amounts of the last lines named for the axes, and the disk of the last line
named for the disk. -/
structure Entry.Advertised (o : Offer) (e : Entry) : Prop where
  cpu : ∃ r, LastLine (·.name = "cpus") o.resources r ∧ e.cpu = (r.bind Resource.scalar).getD 0
  mem : ∃ r, LastLine (·.name = "mem") o.resources r ∧ e.mem = (r.bind Resource.scalar).getD 0
  disk : ∃ r, LastLine (·.name = "disk") o.resources r ∧ e.disk = r.bind Resource.disk

/-- A task asks for all amounts of a name one after the other, and for the disk of the last line that
describes one. -/
structure Demand.Asked (t : Task) (d : Demand) : Prop where
  cpu : d.cpu =
    ((t.resources.filter (·.name = "cpus")).map fun r => r.scalar.getD 0).foldl (· + ·) 0
  mem : d.mem =
    ((t.resources.filter (·.name = "mem")).map fun r => r.scalar.getD 0).foldl (· + ·) 0
  disk : ∃ r, LastLine (fun r => r.name = "disk" ∧ r.disk ≠ none) t.resources r ∧
    d.disk = r.bind Resource.disk

theorem lastLine_filter (p : Resource → Prop) [DecidablePred p] (rs : List Resource) :
    LastLine p rs (rs.filter p).getLast? := by
  induction rs using List.reverseRecOn with
  | nil => exact .none (List.forall_mem_nil _)
  | append_singleton rs r ih =>
    by_cases hr : p r
    · have hlast : LastLine p (rs ++ [r]) (some r) := .line hr (List.forall_mem_nil _)
      simpa [hr] using hlast
    · simpa [hr] using ih.concat hr

theorem Entry.advertised_ofOffer (n : Nat) (o : Offer) : Advertised o (ofOffer n o) := by
  have hamount (name : String) : ∃ r, LastLine (·.name = name) o.resources r ∧
      lastAmount name o.resources = (r.bind Resource.scalar).getD 0 := by
    refine ⟨_,lastLine_filter (·.name = name) o.resources,?_⟩
    rw [lastAmount,linesNamed]
    cases (o.resources.filter (·.name = name)).getLast? <;> rfl
  exact ⟨hamount _,hamount _,_,lastLine_filter (·.name = "disk") o.resources,rfl⟩

theorem Demand.exists_lastLine_described (rs : List Resource) :
    ∃ r, LastLine (fun r => r.name = "disk" ∧ r.disk ≠ none) rs r ∧
      lastDescribed rs = r.bind Resource.disk := by
  induction rs using List.reverseRecOn with
  | nil => exact ⟨none,.none (List.forall_mem_nil _),rfl⟩
  | append_singleton rs r ih =>
    obtain ⟨found,hfound,hdisk⟩ := ih
    rw [lastDescribed_concat]
    by_cases hr : r.name = "disk"
    · cases hdescribed : r.disk with
      | none =>
        refine ⟨found,hfound.concat fun h => h.2 hdescribed,?_⟩
        rw [if_pos hr,Option.none_or,hdisk]
      | some d =>
        refine ⟨some r,.line ⟨hr,by simp [hdescribed]⟩ (List.forall_mem_nil _),?_⟩
        rw [if_pos hr,Option.some_or,Option.bind_some,hdescribed]
    · exact ⟨found,hfound.concat fun h => hr h.1,by rw [if_neg hr,hdisk]⟩

theorem Demand.asked_ofTask (t : Task) : Asked t (ofTask t) := by
  have htotal (name : String) : total name t.resources =
      ((t.resources.filter (·.name = name)).map fun r => r.scalar.getD 0).foldl (· + ·) 0 := by
    rw [total,linesNamed,List.foldl_map]
    rfl
  exact ⟨htotal _,htotal _,exists_lastLine_described _⟩

/-! The lines that count. -/

def countedNames : List String := ["cpus","mem","disk"]

def countedLines (rs : List Resource) : List Resource :=
  countedNames.flatMap fun name => linesNamed name rs

section CountedLines

variable {name : String} {rs rs' : List Resource}

theorem linesNamed_countedLines (h : name ∈ countedNames) :
    linesNamed name (countedLines rs) = linesNamed name rs := by
  have happend (l l' : List Resource) :
      linesNamed name (l ++ l') = linesNamed name l ++ linesNamed name l' := List.filter_append ..
  simp only [countedLines,countedNames,List.flatMap_cons,List.flatMap_nil,happend,
    linesNamed_linesNamed]
  obtain rfl | rfl | rfl : name = "cpus" ∨ name = "mem" ∨ name = "disk" := by
    simpa [countedNames] using h
  all_goals simp [linesNamed]

theorem countedLines_eq_iff : countedLines rs = countedLines rs' ↔
    ∀ name ∈ countedNames, linesNamed name rs = linesNamed name rs' := by
  constructor
  · intro h name hname
    rw [← linesNamed_countedLines hname,h,linesNamed_countedLines hname]
  · exact List.flatMap_congr

/-- A line of another name is left out, or the lines change places, those of one name staying in their
order. -/
inductive LineEdit : List Resource → List Resource → Prop
  | leaveOut (before after : List Resource) {r : Resource} (foreign : r.name ∉ countedNames) :
    LineEdit (before ++ r :: after) (before ++ after)
  | reorder {rs rs' : List Resource} (inOrder : ∀ name, linesNamed name rs = linesNamed name rs') :
    LineEdit rs rs'

theorem LineEdit.countedLines (h : LineEdit rs rs') : countedLines rs = countedLines rs' := by
  rw [countedLines_eq_iff]
  intro name hname
  cases h with
  | leaveOut before after foreign =>
    have hne (r : Resource) (foreign : r.name ∉ countedNames) : r.name ≠ name := by
      rintro rfl
      exact foreign hname
    simp [linesNamed,hne _ foreign]
  | reorder inOrder => exact inOrder name

theorem eqvGen_filter (before rs : List Resource) : Relation.EqvGen LineEdit (before ++ rs)
    (before ++ rs.filter fun r => r.name ∈ countedNames) := by
  induction rs generalizing before with
  | nil => exact .refl _
  | cons r rs ih =>
    by_cases hr : r.name ∈ countedNames
    · simpa [hr] using ih (before ++ [r])
    · simp only [hr,decide_false,Bool.false_eq_true,not_false_eq_true,List.filter_cons_of_neg]
      exact (Relation.EqvGen.rel _ _ (.leaveOut before rs hr)).trans _ _ _ (ih before)

/-- The lines that count are the same just if one list is made into the other by edits. -/
theorem eqvGen_lineEdit_iff :
    Relation.EqvGen LineEdit rs rs' ↔ countedLines rs = countedLines rs' := by
  constructor
  · intro h
    induction h with
    | rel _ _ h => exact h.countedLines
    | refl => rfl
    | symm _ _ _ ih => exact ih.symm
    | trans _ _ _ _ _ ih ih' => exact ih.trans ih'
  · intro h
    rw [countedLines_eq_iff] at h
    have hordered : LineEdit (rs.filter fun r => r.name ∈ countedNames)
        (rs'.filter fun r => r.name ∈ countedNames) := by
      refine .reorder fun name => ?_
      have hlines (rs : List Resource) : linesNamed name (rs.filter fun r => r.name ∈ countedNames) =
          if name ∈ countedNames then linesNamed name rs else [] := by
        rw [linesNamed,List.filter_filter]
        split_ifs with hname
        · exact List.filter_congr fun r _ => by by_cases hr : r.name = name <;> simp [hr,hname]
        · refine List.filter_eq_nil_iff.mpr fun r _ => ?_
          by_cases hr : r.name = name <;> simp [hr,hname]
      rw [hlines,hlines]
      split_ifs with hname
      · exact h name hname
      · rfl
    exact ((eqvGen_filter [] rs).trans _ _ _ (.rel _ _ hordered)).trans _ _ _
      (eqvGen_filter [] rs').symm

end CountedLines

/-! The forms with nothing but the lines that count, in which offers and tasks are all the same to a
call. -/

def Offer.counted (o : Offer) : Offer := { o with resources := countedLines o.resources }

def Task.counted (t : Task) : Task := { t with resources := countedLines t.resources }

def Entry.counted (e : Entry) : Entry := e.through Offer.counted

def Allocator.counted (a : Allocator) : Allocator :=
  a.withPool (a.manager.pool.through Offer.counted)

def Call.counted : Call → Call
  | .offers os => .offers (os.map Offer.counted)
  | .register t fs => .register t.counted fs
  | .clear t => .clear t.counted
  | .assign t => .assign t.counted

def Answer.counted : Answer → Answer
  | .done => .done
  | .assigned e => .assigned e.counted
  | .refused e => .refused e

def Report.counted (r : Report) : Report := { r with answer := r.answer.counted }

theorem countedLines_countedLines (rs : List Resource) :
    countedLines (countedLines rs) = countedLines rs :=
  countedLines_eq_iff.mpr fun _ => linesNamed_countedLines

theorem Entry.ofOffer_congr {n : Nat} {o o' : Offer}
    (h : countedLines o.resources = countedLines o'.resources) :
    (ofOffer n o).cpu = (ofOffer n o').cpu ∧ (ofOffer n o).mem = (ofOffer n o').mem ∧
      (ofOffer n o).disk = (ofOffer n o').disk := by
  have hlines := countedLines_eq_iff.mp h
  simp only [countedNames,List.forall_mem_cons] at hlines
  obtain ⟨hcpus,hmem,hdisk,-⟩ := hlines
  simp [ofOffer,lastAmount,lastDisk,hcpus,hmem,hdisk]

theorem Entry.ofOffer_counted (n : Nat) (o : Offer) :
    ofOffer n o.counted = (ofOffer n o).through Offer.counted := by
  obtain ⟨hcpu,hmem,hdisk⟩ := @ofOffer_congr n o.counted o (countedLines_countedLines o.resources)
  have hentry (e : Entry) : e = ⟨e.position,e.offer,e.cpu,e.mem,e.disk,e.accepted⟩ := rfl
  rw [hentry (ofOffer n o.counted),hcpu,hmem,hdisk]
  rfl

theorem Demand.ofTask_congr {t t' : Task}
    (h : countedLines t.resources = countedLines t'.resources) : ofTask t = ofTask t' := by
  have hlines := countedLines_eq_iff.mp h
  simp only [countedNames,List.forall_mem_cons] at hlines
  obtain ⟨hcpus,hmem,hdisk,-⟩ := hlines
  simp [ofTask,total,hcpus,hmem,hdisk]

theorem Demand.ofTask_counted (t : Task) : ofTask t.counted = ofTask t :=
  ofTask_congr (countedLines_countedLines t.resources)

namespace Allocator

theorem seenThrough_counted (a : Allocator) (t : Task) :
    SeenThrough Offer.counted a a.counted t t.counted := by
  refine ⟨rfl,fun e => ?_⟩
  have hcpus : t.counted.asks "cpus" = t.asks "cpus" :=
    congrArg Demand.cpu (Demand.ofTask_counted t)
  have hmems : t.counted.asks "mem" = t.asks "mem" := congrArg Demand.mem (Demand.ofTask_counted t)
  constructor
  · rintro ⟨hadmitted,hcpu,hmem⟩
    exact ⟨hadmitted,hcpus ▸ hcpu,hmems ▸ hmem⟩
  · rintro ⟨hadmitted,hcpu,hmem⟩
    exact ⟨hadmitted,hcpus.symm ▸ hcpu,hmems.symm ▸ hmem⟩

/-- A call works on what counts of the lines as it works on the lines themselves. -/
theorem step_counted (a : Allocator) (c : Call) :
    a.counted.step c.counted = ((a.step c).1.counted,(a.step c).2.counted) := by
  cases c with
  | offers os =>
    have hpool := a.manager.pool.replace_through (f := Offer.counted) Entry.ofOffer_counted os
    simp only [step,Call.counted,Manager.receive,List.length_map,Prod.mk.injEq]
    exact ⟨rfl,congrArg a.counted.withPool hpool⟩
  | register t fs =>
    simp only [step,Call.counted,Task.counted]
    cases Batch.ofFilters t.name fs <;> rfl
  | clear t => rfl
  | assign t =>
    have hseen := a.seenThrough_counted t
    obtain hnone | ⟨i,e,hfirst⟩ := a.step_assign_cases t
    · rw [Call.counted,step_assign_of_none hnone,step_assign_of_none (hseen.none hnone)]
      rfl
    · have hleft : (Demand.ofTask t.counted).take (e.through Offer.counted) =
          ((Demand.ofTask t).take e).through Offer.counted := by
        rw [Demand.ofTask_counted]
        rfl
      have hkeeps : a.counted.keeps t.counted (((Demand.ofTask t).take e).through Offer.counted) =
          a.keeps t ((Demand.ofTask t).take e) := rfl
      rw [Call.counted,step_assign_of_firstAt hfirst,step_assign_of_firstAt (hseen.firstAt hfirst)]
      simp only [hleft,hkeeps,Prod.mk.injEq]
      refine ⟨rfl,?_⟩
      split_ifs
      · exact congrArg a.counted.withPool (a.manager.pool.set_through _ i _)
      · exact congrArg a.counted.withPool (a.manager.pool.drop_through _ i)

end Allocator

/-- Two moments that differ in nothing but the lines of offers that do not count: the same is answered
and logged, and what is held and what is left in the pool are the same. -/
structure Moment.SameButLines (m m' : Moment) : Prop where
  answer : m.report.answer.counted = m'.report.answer.counted
  log : m.report.log = m'.report.log
  registry : m.left.registry = m'.left.registry
  entries : m.left.manager.pool.entries.map Entry.counted =
    m'.left.manager.pool.entries.map Entry.counted

theorem Moment.sameButLines {a a' : Allocator} {c c' : Call} (ha : a.counted = a'.counted)
    (hc : c.counted = c'.counted) :
    SameButLines ⟨a,c⟩ ⟨a',c'⟩ ∧ (a.step c).2.counted = (a'.step c').2.counted := by
  have hstep : ((a.step c).1.counted,(a.step c).2.counted) =
      ((a'.step c').1.counted,(a'.step c').2.counted) := by
    rw [← a.step_counted,← a'.step_counted,ha,hc]
  obtain ⟨hreport,hleft⟩ := Prod.mk.inj hstep
  refine ⟨⟨?_,?_,?_,?_⟩,hleft⟩
  · exact (congrArg Report.answer hreport :)
  · exact (congrArg Report.log hreport :)
  · exact (congrArg Allocator.registry hleft :)
  · exact (congrArg (fun a => a.manager.pool.entries) hleft :)

/-- Of the lines of offers and tasks only those count that are named `cpus`, `mem` and `disk`. An offer
goes by the last line of each name and a task by all of them, as if read one line after the other.
Two lists have the same lines that count just if edits that leave these in their order make one list
into the other, and then no call of any run tells them apart. -/
theorem lines_count_by_name :
    (∀ n o, Entry.ofOffer n o = o.resources.foldl Entry.readLine (.unread n o) ∧
      (Entry.ofOffer n o).Advertised o) ∧
    (∀ t, Demand.ofTask t = t.resources.foldl Demand.readLine .nothing ∧
      (Demand.ofTask t).Asked t) ∧
    (∀ rs rs', countedLines rs = countedLines rs' ↔ Relation.EqvGen LineEdit rs rs') ∧
    (∀ n o o', countedLines o.resources = countedLines o'.resources →
      (Entry.ofOffer n o).cpu = (Entry.ofOffer n o').cpu ∧
        (Entry.ofOffer n o).mem = (Entry.ofOffer n o').mem ∧
        (Entry.ofOffer n o).disk = (Entry.ofOffer n o').disk) ∧
    (∀ t t', countedLines t.resources = countedLines t'.resources →
      Demand.ofTask t = Demand.ofTask t') ∧
    ∀ (a a' : Allocator) (cs cs' : List Call), a.counted = a'.counted →
      List.Forall₂ (fun c c' => c.counted = c'.counted) cs cs' →
      List.Forall₂ Moment.SameButLines (a.moments cs) (a'.moments cs') := by
  refine ⟨fun n o => ⟨?_,Entry.advertised_ofOffer n o⟩,fun t => ⟨?_,Demand.asked_ofTask t⟩,
    fun rs rs' => eqvGen_lineEdit_iff.symm,fun n o o' => Entry.ofOffer_congr,
    fun t t' => Demand.ofTask_congr,fun a a' cs cs' ha hcs => ?_⟩
  · rw [Entry.foldl_readLine]
    rfl
  · rw [Demand.foldl_readLine]
    rfl
  · exact Allocator.forall₂_moments (R := fun a a' => a.counted = a'.counted) ha hcs
      fun _ _ _ _ => Moment.sameButLines

theorem lines_count_by_name_mixed :
    let disk : Disk := { containerPath := some "/data" }
    let mixed : List Resource := [.amount "gpus" 1,.cpus 1,.mem 256,.ofDisk disk,.cpus 4,
      { name := "disk" },.amount "Cpus" 9,.mem 512]
    let sorted : List Resource := [.cpus 1,.cpus 4,.mem 256,.mem 512,.ofDisk disk,{ name := "disk" }]
    let offer (lines : List Resource) : Offer := { id := "o1", resources := lines }
    let a := Allocator.mk .empty (.ofConfig {})
    let cs : List Call := [.offers [offer mixed],.assign (.named "big" mixed),
      .assign (.named "t1" [.cpus 1,.amount "gpus" 7,.mem 8,.cpus 2])]
    let cs' : List Call := [.offers [offer sorted],.assign (.named "big" sorted),
      .assign (.named "t1" [.mem 8,.cpus 1,.cpus 2])]
    countedLines mixed = countedLines sorted ∧ a.counted = a.counted ∧
      List.Forall₂ (fun c c' => c.counted = c'.counted) cs cs' ∧
      (a.run cs).1.map Report.given? = [none,none,some 0] ∧
      Relation.EqvGen LineEdit mixed sorted ∧
      (Entry.ofOffer 0 (offer mixed)).cpu = (Entry.ofOffer 0 (offer sorted)).cpu ∧
      Demand.ofTask (.named "big" mixed) = Demand.ofTask (.named "big" sorted) ∧
      List.Forall₂ Moment.SameButLines (a.moments cs) (a.moments cs') := by
  intro disk mixed sorted offer a cs cs'
  have hlines : countedLines mixed = countedLines sorted := by
    simp [countedLines,countedNames,linesNamed,mixed,sorted,Resource.amount,Resource.cpus,
      Resource.mem,Resource.ofDisk]
  have hcs : List.Forall₂ (fun c c' => c.counted = c'.counted) cs cs' := by
    simp [cs,cs',offer,Call.counted,Offer.counted,Task.counted,Task.named,hlines]
    simp [countedLines,countedNames,linesNamed,Resource.amount,Resource.cpus,Resource.mem]
  obtain ⟨-,-,hedits,hoffers,htasks,hruns⟩ := lines_count_by_name
  exact ⟨hlines,rfl,hcs,by decide +kernel,(hedits _ _).mp hlines,(hoffers 0 _ _ hlines).1,
    htasks _ _ hlines,hruns a a cs cs' rfl hcs⟩

end OfferAllocation
