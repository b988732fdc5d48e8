import OfferAllocation.Json.Record
import OfferAllocation.Text.AsciiCase

/-! Filters of tasks: the kinds of attribute they look at, the modes in which they are applied, and
the strategies by which an offer is kept or let go after a match. -/
namespace OfferAllocation

/-- The kinds of filter, which are those of attribute values. -/
inductive FilterKind
  | scalar | text | set | ranges
  deriving DecidableEq

namespace FilterKind

def name : FilterKind → String
  | .scalar => "scalar"
  | .text => "text"
  | .set => "set"
  | .ranges => "ranges"

def table : List (String × FilterKind) :=
  [("scalar",.scalar),("text",.text),("set",.set),("ranges",.ranges)]

/-- The kind of a name in any case. -/
def ofName? (s : String) : Option FilterKind :=
  (table.find? fun entry => Text.sameAscii entry.1 s).map Prod.snd

def codec : Codec FilterKind := .variant table name

theorem variantNamed_table_iff {s : String} {kind : FilterKind} :
    variantNamed table s = .ok kind ↔ s = kind.name :=
  variantNamed_eq_ok_iff (by decide) fun kind => by cases kind <;> rfl

end FilterKind

/-- What becomes of an offer after a match: it leaves the pool, or it stays until an axis of it is
exhausted. -/
inductive Strategy
  | nonMux | mux
  deriving DecidableEq

namespace Strategy

def name : Strategy → String
  | .nonMux => "non-mux"
  | .mux => "mux"

def table : List (String × Strategy) := [("non-mux",.nonMux),("mux",.mux)]

/-- Only the word `mux`, in any case, selects that strategy. -/
def ofName (s : String) : Strategy := if Text.sameAscii s "mux" then .mux else .nonMux

def codec : Codec Strategy := .variant table name

theorem variantNamed_table_iff {s : String} {strategy : Strategy} :
    variantNamed table s = .ok strategy ↔ s = strategy.name :=
  variantNamed_eq_ok_iff (by decide) fun strategy => by cases strategy <;> rfl

end Strategy

/-- How filters meet attributes: the first term of each against text alone, or all terms of each
against attributes of its kind. -/
inductive FilterMode
  | textOnly | full
  deriving DecidableEq

namespace FilterMode

def name : FilterMode → String
  | .textOnly => "text-only"
  | .full => "full"

def table : List (String × FilterMode) := [("text-only",.textOnly),("full",.full)]

def codec : Codec FilterMode := .variant table name

theorem variantNamed_table_iff {s : String} {mode : FilterMode} :
    variantNamed table s = .ok mode ↔ s = mode.name :=
  variantNamed_eq_ok_iff (by decide) fun mode => by cases mode <;> rfl

end FilterMode

/-- A filter as it is submitted: its kind is any text until a registry has looked at it. -/
structure Filter where
  kind : String
  values : List String := []
  deriving DecidableEq

namespace Filter

def fields : Fields [String,List String] :=
  .cons ((Field.required "kind" .string).orNamed "type") <|
  .cons ((Field.defaulted "values" (.list .string) []).orNamed "value") .nil

def codec : Codec Filter := fields.codec (fun (k,vs,_) => ⟨k,vs⟩) fun f => (f.kind,f.values,())

end Filter

/-- A filter whose kind is known. -/
structure Constraint where
  kind : FilterKind
  values : List String
  deriving DecidableEq

end OfferAllocation
