import OfferAllocation.Filter

/-! Attributes of offers, which filters look at and no task consumes. In documents the payload of
a value stands beside a tag that says how to read it, and may come before the tag. -/
namespace OfferAllocation

/-- An inclusive range of machine words. -/
structure ValueRange where
  first : UInt64
  last : UInt64
  deriving DecidableEq

namespace ValueRange

def contains (r : ValueRange) (n : UInt64) : Bool := r.first ≤ n && n ≤ r.last

def fields : Fields [UInt64,UInt64] :=
  .cons (.required "begin" .word) <| .cons (.required "end" .word) .nil

def codec : Codec ValueRange := fields.codec (fun (a,b,_) => ⟨a,b⟩) fun r => (r.first,r.last,())

end ValueRange

inductive AttributeValue
  | scalar (x : Float)
  | text (s : String)
  | set (items : List String)
  | ranges (rs : List ValueRange)
  deriving BEq

namespace AttributeValue

/-- The kind of filter that looks at a value. -/
def kind : AttributeValue → FilterKind
  | .scalar _ => .scalar
  | .text _ => .text
  | .set _ => .set
  | .ranges _ => .ranges

/-- Reads the payload that goes with a tag. -/
def readPayload (kind : FilterKind) (j : Json) : Except Misfit AttributeValue :=
  match kind with
  | .scalar => .scalar <$> Codec.double.read j
  | .text => .text <$> Codec.string.read j
  | .set => .set <$> (Codec.list .string).read j
  | .ranges => .ranges <$> (Codec.list ValueRange.codec).read j

def writePayload : AttributeValue → Json
  | .scalar x => Codec.double.write x
  | .text s => Codec.string.write s
  | .set items => (Codec.list .string).write items
  | .ranges rs => (Codec.list ValueRange.codec).write rs

/-- The two members of an object that make up a value. -/
inductive Part
  | tag | payload
  deriving DecidableEq

def Part.name : Part → String
  | .tag => "type"
  | .payload => "value"

def Part.ofName? (key : String) : Option Part :=
  if key = "type" then some .tag else if key = "value" then some .payload else none

/-- How far the reading of a value has come: nowhere, to a tag that waits for its payload, to a payload
that was set aside until its tag comes, or to the end. -/
inductive Progress
  | start
  | tagged (kind : FilterKind)
  | setAside (payload : Json)
  | complete (v : AttributeValue)

namespace Progress

/-- Takes up one part. A payload that comes before the tag is set aside whole, so nothing in it may be
void; one that comes after the tag is read at once. -/
def take (readTag : Json → Except Misfit FilterKind) : Progress → Part × Json →
    Except Misfit Progress
  | .start,(.tag,t) => .tagged <$> readTag t
  | .start,(.payload,j) => if j.sound then .ok (.setAside j) else .error .shape
  | .tagged kind,(.payload,j) => .complete <$> readPayload kind j
  | .setAside j,(.tag,t) => do
    let kind ← readTag t
    .complete <$> readPayload kind j
  | _,(p,_) => .error (.duplicateField p.name)

/-- Takes up one member of an object, which is passed over if it is no part. -/
def member (readTag : Json → Except Misfit FilterKind) (s : Progress) (m : Label × Json) :
    Except Misfit Progress :=
  match m.1 with
  | none => .error .shape
  | some k => match Part.ofName? k with
    | none => .ok s
    | some p => s.take readTag (p,m.2)

/-- Where no more members come, the tag is missed before the payload. -/
def finish : Progress → Except Misfit AttributeValue
  | .complete v => .ok v
  | .tagged _ => .error (.missingField "value")
  | _ => .error (.missingField "type")

end Progress

/-- Reads a value from its parts in their order. -/
def readParts (readTag : Json → Except Misfit FilterKind) (ps : List (Part × Json)) :
    Except Misfit AttributeValue := do
  let s ← ps.foldlM (Progress.take readTag) .start
  s.finish

def parts (ms : List (String × Json)) : List (Part × Json) :=
  ms.filterMap fun m => (Part.ofName? m.1).map fun p => (p,m.2)

def readTag : Json → Except Misfit FilterKind := Codec.readVariant FilterKind.table

/-- A value by position: the name of a tag, the payload and nothing more. Here a tag has no other
form than its name. -/
def readPair : List Json → Except Misfit AttributeValue
  | .string s :: js => do
    let kind ← variantNamed FilterKind.table s
    match js with
    | [] => .error .shape
    | j :: js => do
      let v ← readPayload kind j
      if js.isEmpty then .ok v else .error .shape
  | _ => .error .shape

/-- The tag and the payload of a value as members of an object. -/
def members (v : AttributeValue) : List (Label × Json) :=
  [(some "type",FilterKind.codec.write v.kind),(some "value",v.writePayload)]

def codec : Codec AttributeValue where
  read
    | .object ms => do
      let s ← ms.foldlM (Progress.member readTag) .start
      s.finish
    | .array js => readPair js
    | _ => .error .shape
  write v := .object v.members

end AttributeValue

structure Attribute where
  name : String
  value : AttributeValue
  deriving BEq

namespace Attribute

def text (name s : String) : Attribute := ⟨name,.text s⟩

def scalar (name : String) (x : Float) : Attribute := ⟨name,.scalar x⟩

def set (name : String) (items : List String) : Attribute := ⟨name,.set items⟩

def ranges (name : String) (rs : List ValueRange) : Attribute := ⟨name,.ranges rs⟩

/-- A tag that was set aside with the other members: as an object it has one member, and an empty
object does for `null`. -/
def readTag : Json → Except Misfit FilterKind
  | .object [(k,.object [])] => AttributeValue.readTag (.object [(k,.null)])
  | .object (_ :: _ :: _) => .error .shape
  | j => AttributeValue.readTag j

/-- The name, if it has come, and all other members set aside, latest first. -/
structure Gathered where
  name : Option String := none
  others : List (String × Json) := []

def gather (g : Gathered) (m : Label × Json) : Except Misfit Gathered :=
  match m with
  | (none,_) => .error .shape
  | (some k,j) =>
    if k = "name" then
      match g.name with
      | some _ => .error (.duplicateField "name")
      | none => do
        let s ← Codec.string.read j
        return { g with name := some s }
    else if j.sound then .ok { g with others := (k,j) :: g.others }
    else .error .shape

/-- An attribute shares its object with its value. All members are gathered before the value is
read from those that are not the name. -/
def codec : Codec Attribute where
  read
    | .object ms => do
      let g ← ms.foldlM gather {}
      match g.name with
      | none => .error (.missingField "name")
      | some name => do
        let v ← AttributeValue.readParts readTag (AttributeValue.parts g.others.reverse)
        return ⟨name,v⟩
    | _ => .error .shape
  write a := .object ((some "name",.string a.name) :: a.value.members)

end Attribute
end OfferAllocation
