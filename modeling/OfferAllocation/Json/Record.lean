import OfferAllocation.Json.Codec

/-! Records in documents. A record is read from an object by the names of its fields, or from an
array by their positions; both readings share the list of fields, which also directs writing. -/
namespace OfferAllocation

/-- One field. `absent` is the value of a field left out, and a field without it is required. A
value of which `silent` holds is not written. -/
structure Field (α : Type) where
  name : String
  otherName : Option String
  codec : Codec α
  absent : Option α
  silent : α → Bool

namespace Field

def required {α : Type} (name : String) (codec : Codec α) : Field α :=
  ⟨name,none,codec,none,fun _ => false⟩

def defaulted {α : Type} (name : String) (codec : Codec α) (value : α) : Field α :=
  ⟨name,none,codec,some value,fun _ => false⟩

def optional {α : Type} (name : String) (codec : Codec α) : Field (Option α) :=
  ⟨name,none,codec.option,some none,Option.isNone⟩

/-- The same field with a second name for reading. -/
def orNamed {α : Type} (f : Field α) (name : String) : Field α := { f with otherName := some name }

def answersTo {α : Type} (f : Field α) (key : String) : Bool :=
  key == f.name || f.otherName == some key

end Field

/-- The fields of a record in order, indexed by their types. -/
inductive Fields : List Type → Type 1
  | nil : Fields []
  | cons {α : Type} {αs : List Type} (field : Field α) (rest : Fields αs) : Fields (α :: αs)

/-- A value for every field. -/
def Row : List Type → Type
  | [] => Unit
  | α :: αs => α × Row αs

/-- A value for every field that has been met. -/
def Slots : List Type → Type
  | [] => Unit
  | α :: αs => Option α × Slots αs

def Slots.empty : (αs : List Type) → Slots αs
  | [] => ()
  | _ :: αs => (none,Slots.empty αs)

namespace Fields

/-- Takes up one member. A field met before is refused before its value is looked at, and a member
that belongs to no field is passed over. -/
def put : {αs : List Type} → Fields αs → String → Json → Slots αs → Except Misfit (Slots αs)
  | _,.nil,_,_,s => .ok s
  | _,.cons f fs,k,j,(slot,s) =>
    if f.answersTo k then
      match slot with
      | some _ => .error (.duplicateField f.name)
      | none => do
        let a ← f.codec.read j
        return (some a,s)
    else do
      let s ← fs.put k j s
      return (slot,s)

def member {αs : List Type} (fs : Fields αs) (s : Slots αs) (m : Label × Json) :
    Except Misfit (Slots αs) :=
  match m.1 with
  | some k => fs.put k m.2 s
  | none => .error .shape

/-- Fills the fields that were not met, and reports the first of them that is required. -/
def fill : {αs : List Type} → Fields αs → Slots αs → Except Misfit (Row αs)
  | _,.nil,_ => .ok ()
  | _,.cons f fs,(slot,s) =>
    match slot.or f.absent with
    | none => .error (.missingField f.name)
    | some a => do
      let row ← fs.fill s
      return (a,row)

/-- Reads an object: its members in their order, then what is missing. -/
def readMembers {αs : List Type} (fs : Fields αs) (ms : List (Label × Json)) :
    Except Misfit (Row αs) := do
  let s ← ms.foldlM fs.member (Slots.empty αs)
  fs.fill s

/-- Reads an array by position; the last fields may be left off if they can be absent. -/
def readItems : {αs : List Type} → Fields αs → List Json → Except Misfit (Row αs)
  | _,.nil,[] => .ok ()
  | _,.nil,_ :: _ => .error .shape
  | _,.cons f fs,[] =>
    match f.absent with
    | none => .error .shape
    | some a => do
      let row ← fs.readItems []
      return (a,row)
  | _,.cons f fs,j :: js => do
    let a ← f.codec.read j
    let row ← fs.readItems js
    return (a,row)

def writeMembers : {αs : List Type} → Fields αs → Row αs → List (Label × Json)
  | _,.nil,_ => []
  | _,.cons f fs,(a,row) =>
    if f.silent a then fs.writeMembers row
    else (some f.name,f.codec.write a) :: fs.writeMembers row

/-- The codec of a record that is built from a row and can be laid out as one. -/
def codec {αs : List Type} {ρ : Type} (fs : Fields αs) (ofRow : Row αs → ρ) (toRow : ρ → Row αs) :
    Codec ρ where
  read
    | .object ms => ofRow <$> fs.readMembers ms
    | .array js => ofRow <$> fs.readItems js
    | _ => .error .shape
  write r := .object (fs.writeMembers (toRow r))

end Fields
end OfferAllocation
