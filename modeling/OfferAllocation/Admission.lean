import OfferAllocation.Attribute
import OfferAllocation.Text.Blank
import OfferAllocation.Text.LowerCase

/-! Admission: which offers a list of filters lets through. One match of one filter with one
attribute is enough, and a task without filters is admitted everywhere. -/
namespace OfferAllocation
namespace Admission

/-- The machine word that a term stands for, blanks around it aside. -/
def wordTerm? (t : String) : Option UInt64 := Numeral.word? (Text.trim t.toList)

/-- The double that a term stands for, blanks around it aside. -/
def doubleTerm? (t : String) : Option Float := Numeral.double? (Text.trim t.toList)

/-- Only the first term counts, and only text can match it. -/
def firstTermMatches (c : Constraint) : AttributeValue → Bool
  | .text s => c.values.head?.any fun t => Text.sameLower t s
  | _ => false

/-- Any term of a filter may match a value of its kind; terms that are no numeral where one is
called for match nothing. -/
def anyTermMatches (c : Constraint) : AttributeValue → Bool
  | .text s => c.kind == .text && c.values.any fun t => Text.sameLower t s
  | .scalar x => c.kind == .scalar && c.values.any fun t => (doubleTerm? t).any fun y => y == x
  | .set items =>
    c.kind == .set && c.values.any fun t => items.any fun item => Text.sameLower t item
  | .ranges rs =>
    c.kind == .ranges &&
      c.values.any fun t => (wordTerm? t).any fun n => rs.any fun r => r.contains n

def matchesValue : FilterMode → Constraint → AttributeValue → Bool
  | .textOnly => firstTermMatches
  | .full => anyTermMatches

end Admission

/-- Tells whether an offer with these attributes is open to a task with these filters. -/
def admits (mode : FilterMode) (cs : List Constraint) (as : List Attribute) : Bool :=
  cs.isEmpty || cs.any fun c => as.any fun a => Admission.matchesValue mode c a.value

@[simp] theorem admits_nil (mode : FilterMode) (as : List Attribute) : admits mode [] as = true := rfl

end OfferAllocation
