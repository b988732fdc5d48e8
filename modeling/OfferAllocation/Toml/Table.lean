import OfferAllocation.Toml.Value

/-! Tables under construction. Statements of a text may open a table, open the next element of an
array of tables, or give a value; how a table came about decides what may still be put into it. -/
namespace OfferAllocation
namespace Toml

/-- A table is opened by a header, or implied by a header below it, or made by a dotted key. -/
inductive Origin
  | header | implied | dotted
  deriving DecidableEq

inductive Node
  | value (v : Toml)
  | table (origin : Origin) (entries : List (String × Node))
  | tables (elements : List (List (String × Node)))

abbrev Entries := List (String × Node)

/-- A dotted key: the names of tables, and the name of what it stands for. -/
structure Key where
  above : List String
  last : String

def Key.path (k : Key) : List String := k.above ++ [k.last]

inductive Statement
  | table (key : Key)
  | element (key : Key)
  | pair (key : Key) (value : Toml)

mutual

/-- The finished tree. -/
def Node.tree : Node → Toml
  | .value v => v
  | .table _ es => .table (treeEntries es)
  | .tables ts => .array (treeElements ts)

def treeEntries : List (String × Node) → List (String × Toml)
  | [] => []
  | (k,n) :: es => (k,n.tree) :: treeEntries es

def treeElements : List (List (String × Node)) → List Toml
  | [] => []
  | es :: ts => .table (treeEntries es) :: treeElements ts

end

namespace Entries

def replace (es : Entries) (k : String) (n : Node) : Entries :=
  es.map fun e => if e.1 = k then (k,n) else e

/-- Changes the table at a path of names. Names not in use become implied tables, and an array of
tables stands for its latest element. -/
def within (f : Entries → Option Entries) : List String → Entries → Option Entries
  | [],es => f es
  | k :: ks,es =>
    match es.lookup k with
    | none => (within f ks []).map fun t => es ++ [(k,.table .implied t)]
    | some (.value _) => none
    | some (.table o t) => (within f ks t).map fun t => es.replace k (.table o t)
    | some (.tables ts) => do
      let t ← within f ks (← ts.getLast?)
      return es.replace k (.tables (ts.dropLast ++ [t]))

/-- Opens a table. One that is only implied keeps its contents, and counts as named here. -/
def openTable (k : String) (es : Entries) : Option Entries :=
  match es.lookup k with
  | none => some (es ++ [(k,.table .header [])])
  | some (.table .implied t) => some ((es.filter fun e => e.1 ≠ k) ++ [(k,.table .header t)])
  | _ => none

/-- Opens the next element of an array of tables. -/
def openElement (k : String) (es : Entries) : Option Entries :=
  match es.lookup k with
  | none => some (es ++ [(k,.tables [[]])])
  | some (.tables ts) => some (es.replace k (.tables (ts ++ [[]])))
  | _ => none

/-- Gives a value to a name that has none yet, at the end of a path of dotted names. The table at
the end of the path must itself be made by dotted names. -/
def give (last : String) (v : Toml) : List String → Entries → Option Entries
  | [],es => if (es.lookup last).isSome then none else some (es ++ [(last,.value v)])
  | k :: ks,es =>
    match es.lookup k with
    | none => (give last v ks []).map fun t => es ++ [(k,.table .dotted t)]
    | some (.table .dotted t) =>
      (give last v ks t).map fun t => es.replace k (.table .dotted t)
    | some (.table .implied t) =>
      if ks.isEmpty then none
      else (give last v ks t).map fun t => es.replace k (.table .implied t)
    | some (.tables ts) =>
      if ks.isEmpty then none
      else do
        let t ← give last v ks (← ts.getLast?)
        return es.replace k (.tables (ts.dropLast ++ [t]))
    | _ => none

end Entries

/-- All that has been stated so far, and the path of the table that is open. -/
structure Draft where
  root : Entries
  here : List String

def Draft.step (d : Draft) : Statement → Option Draft
  | .table k => (d.root.within (Entries.openTable k.last) k.above).map (⟨·,k.path⟩)
  | .element k => (d.root.within (Entries.openElement k.last) k.above).map (⟨·,k.path⟩)
  | .pair k v => (d.root.within (Entries.give k.last v k.above) d.here).map (⟨·,d.here⟩)

/-- The table that a sequence of statements describes. -/
def ofStatements (ss : List Statement) : Option (List (String × Toml)) := do
  let d ← ss.foldlM Draft.step ⟨[],[]⟩
  return treeEntries d.root

/-- The table between braces, of which all is stated by keys. -/
def ofPairs (ps : List (Key × Toml)) : Option Toml := do
  let es ← ps.foldlM (fun es p => Entries.give p.1.last p.2 p.1.above es) ([] : Entries)
  return .table (treeEntries es)

end Toml
end OfferAllocation
