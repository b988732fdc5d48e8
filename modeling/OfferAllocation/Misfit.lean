/-! The ways in which a document, itself in order, fails to describe the value that is wanted. -/
namespace OfferAllocation

/-- `shape` stands for every fault that is reported without a message. -/
inductive Misfit
  | missingField (name : String)
  | duplicateField (name : String)
  | unknownVariant (found : String) (expected : List String)
  | shape
  deriving DecidableEq

namespace Misfit

def ticked (s : String) : String := "`" ++ s ++ "`"

/-- The names that would have done: two are joined by a word, more are listed. -/
def alternatives : List String → String
  | [a,b] => ticked a ++ " or " ++ ticked b
  | names => "one of " ++ String.intercalate ", " (names.map ticked)

def message : Misfit → Option String
  | .missingField f => some ("missing field " ++ ticked f)
  | .duplicateField f => some ("duplicate field " ++ ticked f)
  | .unknownVariant v names =>
    some ("unknown variant " ++ ticked v ++ ", expected " ++ alternatives names)
  | .shape => none

end Misfit

/-- Looks a variant up by its name, among all names in order. -/
def variantNamed {α : Type} (table : List (String × α)) (name : String) : Except Misfit α :=
  match table.lookup name with
  | some a => .ok a
  | none => .error (.unknownVariant name (table.map Prod.fst))

/-- In a table of names a variant is found by its name and by no other. -/
theorem variantNamed_eq_ok_iff {α : Type} {table : List (String × α)} {name : α → String}
    (named : ∀ e ∈ table, e.1 = name e.2) (complete : ∀ a, table.lookup (name a) = some a)
    {s : String} {a : α} : variantNamed table s = .ok a ↔ s = name a := by
  constructor
  · intro h
    cases hs : table.lookup s with
    | none => simp [variantNamed,hs] at h
    | some b =>
      obtain rfl : b = a := by simpa [variantNamed,hs] using h
      obtain ⟨before,after,rfl,-⟩ := List.lookup_eq_some_iff.mp hs
      exact named (s,b) (by simp)
  · rintro rfl
    simp [variantNamed,complete]

end OfferAllocation
