import OfferAllocation.Json.Token

/-! The grammatical half of reading: a fold over the tokens that builds the tree, with the
containers not yet closed held in a list. -/
namespace OfferAllocation
namespace Json

/-- A container part way through, its contents latest first: an array with its items so far, or an
object with its members so far and the name whose value is due. -/
inductive Frame
  | array (items : List Json)
  | object (members : List (Label × Json)) (name : Label)

/-- What may come next. -/
inductive Stage
  | value (outer : List Frame)
  | firstItem (outer : List Frame)
  | afterItem (items : List Json) (outer : List Frame)
  | firstName (outer : List Frame)
  | name (members : List (Label × Json)) (outer : List Frame)
  | afterName (members : List (Label × Json)) (name : Label) (outer : List Frame)
  | afterMember (members : List (Label × Json)) (outer : List Frame)
  | complete (document : Json)

namespace Stage

/-- A value takes its place in the innermost container. -/
def place (j : Json) : List Frame → Stage
  | [] => .complete j
  | .array js :: fs => .afterItem (j :: js) fs
  | .object ms k :: fs => .afterMember ((k,j) :: ms) fs

/-- A container inside this many others is void. -/
def depthLimit : Nat := 127

/-- A container that has been closed takes its place. -/
def close (j : Json) (fs : List Frame) : Stage :=
  place (if (fs.drop (depthLimit - 1)).isEmpty then j else .void) fs

/-- The first token of a value. -/
def begin? (fs : List Frame) : Token → Option Stage
  | .openArray => some (.firstItem fs)
  | .openObject => some (.firstName fs)
  | .string s => some (place (ofLabel s) fs)
  | .value j => some (place j fs)
  | _ => none

/-- One token further. -/
def step : Stage → Token → Option Stage
  | .firstItem fs, .closeArray => some (close (.array []) fs)
  | .firstItem fs, t => begin? (.array [] :: fs) t
  | .value fs, t => begin? fs t
  | .afterItem js fs, .comma => some (.value (.array js :: fs))
  | .afterItem js fs, .closeArray => some (close (.array js.reverse) fs)
  | .firstName fs, .closeObject => some (close (.object []) fs)
  | .firstName fs, .string s => some (.afterName [] s fs)
  | .name ms fs, .string s => some (.afterName ms s fs)
  | .afterName ms k fs, .colon => some (.value (.object ms k :: fs))
  | .afterMember ms fs, .comma => some (.name ms fs)
  | .afterMember ms fs, .closeObject => some (close (.object ms.reverse) fs)
  | _, _ => none

end Stage

/-- The document that a text holds, if it is one by the grammar. -/
def parse (text : String) : Option Json := do
  let ts ← tokens? text.toList
  match ← ts.foldlM Stage.step (.value []) with
  | .complete j => some j
  | _ => none

/-- Tells whether a text is a document in which every literal has a value. -/
def isSound (text : String) : Bool := (parse text).any sound

end Json
end OfferAllocation
